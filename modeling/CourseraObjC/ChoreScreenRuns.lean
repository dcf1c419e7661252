import CourseraObjC.ChoreScreen

/-! Runs of CoreDataCoursera's screen. Its label mirrors the log entries of the store
along every run, because the only action that does not list them anew changes none of
them; and how many rows its pickers have depends only on the taps. -/
namespace CourseraObjC
namespace CoreDataCoursera

open Runs

/-- What Core Data keeps of every store: a log entry refers to a chore and a person that
are there. -/
def Intact (c : Context ManagedObject) : Prop :=
  ∀ i log, c.object? i = some (.choreLog log) →
    (∀ j, log.chore_done = some j → (c.object? j).map ManagedObject.entity = some .Chore) ∧
      ∀ j, log.person_who_did_it = some j → (c.object? j).map ManagedObject.entity = some .Person

def ListsLogs (c : Context ManagedObject) (logs : List (ObjectID × ChoreLogMO)) : Prop :=
  (logs.map Prod.fst).Nodup ∧
    ∀ i log, (i,log) ∈ logs ↔ c.object? i = some (.choreLog log)

namespace ViewController

def ShowsLogs (describe : Describe) (s : ViewController) : Prop :=
  ∃ logs, ListsLogs s.context logs ∧
    s.persistedData = String.join (logs.map fun x => logLine describe s.context x.2)

/-- The pickers and the label show what is in the store, and nothing else. -/
def Mirrors (describe : Describe) (s : ViewController) : Prop :=
  s.InSync ∧ s.ShowsLogs describe

end ViewController

open ViewController

variable {describe : Describe} {env : CoreData} {s t : ViewController}

/-! ### Intact stores -/

theorem Intact.of_logs {c d : Context ManagedObject} (hc : Intact c)
    (hlogs : ∀ i log, d.object? i = some (.choreLog log) → c.object? i = some (.choreLog log))
    (hobjects : ∀ i entity, (c.object? i).map ManagedObject.entity = some entity →
      (d.object? i).map ManagedObject.entity = some entity) : Intact d := by
  intro i log hlog
  obtain ⟨hchore,hperson⟩ := hc i log (hlogs i log hlog)
  exact ⟨fun j hj => hobjects j .Chore (hchore j hj),
    fun j hj => hobjects j .Person (hperson j hj)⟩

theorem intact_deleteObject {c : Context ManagedObject} (hc : Intact c) (i : ObjectID) :
    Intact (deleteObject i c) := by
  have hentity {j : ObjectID} {entity : Entity} (hj : j ≠ i)
      (h : (c.object? j).map ManagedObject.entity = some entity) :
      ((deleteObject i c).object? j).map ManagedObject.entity = some entity := by
    have hnullify : ManagedObject.entity ∘ ManagedObject.nullify i = ManagedObject.entity := by
      funext object
      exact ManagedObject.entity_nullify i object
    rw [object?_deleteObject,if_neg hj,Option.map_map,hnullify,h]
  intro k log hlog
  rw [object?_deleteObject] at hlog
  split_ifs at hlog with hk
  obtain ⟨object,hobject,hnullified⟩ := Option.map_eq_some_iff.mp hlog
  cases object with
  | chore object => cases hnullified
  | person object => cases hnullified
  | choreLog log' =>
    obtain rfl : log'.nullify i = log := ManagedObject.choreLog.inj hnullified
    obtain ⟨hchore,hperson⟩ := hc k log' hobject
    constructor
    · intro j hj
      obtain ⟨hj,hne⟩ := Option.filter_eq_some_iff.mp hj
      exact hentity (by simpa using hne) (hchore j hj)
    · intro j hj
      obtain ⟨hj,hne⟩ := Option.filter_eq_some_iff.mp hj
      exact hentity (by simpa using hne) (hperson j hj)

theorem intact_deleteAll (results : List (ObjectID × ManagedObject)) {c : Context ManagedObject}
    (hc : Intact c) : Intact (deleteAll results c) := by
  induction results generalizing c with
  | nil => exact hc
  | cons x results ih =>
    rw [deleteAll,List.foldl_cons,← deleteAll]
    exact ih (intact_deleteObject hc x.1)

theorem intact_saveContext {c d : Context ManagedObject} (hc : Intact c)
    (h : saveContext env c = .ok d) : Intact d := by
  apply hc.of_logs
  · intro i log hlog
    rw [← saveContext_object? h i,hlog]
  · intro i entity hi
    rw [saveContext_object? h i,hi]

theorem intact_deleted {entity : Entity} {c d : Context ManagedObject} (hc : Intact c)
    (h : Deleted env entity c d) : Intact d := by
  obtain ⟨results,_,hsave⟩ := h
  exact intact_saveContext (intact_deleteAll results hc) hsave

/-! ### A new chore or person -/

theorem log_created_iff {entity : Entity} {c d : Context ManagedObject}
    (hcreated : Created entity c d) (hentity : entity ≠ .ChoreLog) (i : ObjectID)
    (log : ChoreLogMO) :
    d.object? i = some (.choreLog log) ↔ c.object? i = some (.choreLog log) := by
  by_cases hi : i = c.next
  · rw [hi,Context.object?_next]
    constructor
    · intro hlog
      have hnew := hcreated.new
      rw [hlog] at hnew
      exact absurd (Option.some.inj hnew).symm hentity
    · intro hlog
      cases hlog
  · rw [hcreated.old i hi]

theorem intact_created {entity : Entity} {c d : Context ManagedObject} (hc : Intact c)
    (hcreated : Created entity c d) (hentity : entity ≠ .ChoreLog) : Intact d := by
  apply hc.of_logs
  · intro i log hlog
    exact (log_created_iff hcreated hentity i log).mp hlog
  · intro i entity' hi
    have hne : i ≠ c.next := by
      intro hnext
      rw [hnext,Context.object?_next] at hi
      cases hi
    rw [hcreated.old i hne,hi]

theorem logLine_congr {c d : Context ManagedObject} {log : ChoreLogMO}
    (hchore : ∀ j, log.chore_done = some j → d.object? j = c.object? j)
    (hperson : ∀ j, log.person_who_did_it = some j → d.object? j = c.object? j) :
    logLine describe d log = logLine describe c log := by
  have hmap {r : Option ObjectID} (hr : ∀ j, r = some j → d.object? j = c.object? j) :
      (r.map fun j => (j,d.object? j)) = r.map fun j => (j,c.object? j) := by
    cases r with
    | none => rfl
    | some j => rw [Option.map_some,Option.map_some,hr j rfl]
  simp only [logLine,hmap hchore,hmap hperson]

theorem logLine_created {entity : Entity} {c d : Context ManagedObject} (hc : Intact c)
    (hcreated : Created entity c d) {i : ObjectID} {log : ChoreLogMO}
    (hlog : c.object? i = some (.choreLog log)) :
    logLine describe d log = logLine describe c log := by
  have hne {j : ObjectID} {entity : Entity}
      (h : (c.object? j).map ManagedObject.entity = some entity) : j ≠ c.next := by
    intro hj
    rw [hj,Context.object?_next] at h
    cases h
  obtain ⟨hchore,hperson⟩ := hc i log hlog
  exact logLine_congr (fun j hj => hcreated.old j (hne (hchore j hj)))
    fun j hj => hcreated.old j (hne (hperson j hj))

/-! ### The label -/

theorem exists_logs {results : List (ObjectID × ManagedObject)}
    (h : ∀ x ∈ results, x.2.entity = .ChoreLog) :
    ∃ logs : List (ObjectID × ChoreLogMO),
      results = logs.map fun x => (x.1,ManagedObject.choreLog x.2) := by
  induction results with
  | nil => exact ⟨[],rfl⟩
  | cons x results ih =>
    obtain ⟨logs,hlogs⟩ := ih fun y hy => h y (List.mem_cons_of_mem x hy)
    have hx := h x List.mem_cons_self
    obtain ⟨i,object⟩ := x
    cases object with
    | chore object => cases hx
    | person object => cases hx
    | choreLog log => exact ⟨(i,log)::logs,by rw [hlogs,List.map_cons]⟩

theorem shows_updateLogList (h : s.updateLogList describe env = .ok t) : t.ShowsLogs describe := by
  obtain ⟨results,hfetch,h⟩ := bind_eq_ok.mp h
  obtain rfl := Except.ok.inj h
  obtain ⟨logs,rfl⟩ := exists_logs fun x hx => ((mem_executeFetchRequest hfetch).mp hx).2
  have hnodup := fetched_nodup hfetch
  rw [List.map_map] at hnodup
  refine ⟨logs,⟨hnodup,fun i log => ?_⟩,?_⟩
  · have hfetched : (i,ManagedObject.choreLog log) ∈ _ ↔ _ := mem_executeFetchRequest hfetch
    simpa [ManagedObject.entity] using hfetched
  · have hlogs : (logs.map fun x => (x.1,ManagedObject.choreLog x.2)).filterMap
        (fun x => x.2.asChoreLog) = logs.map Prod.snd := by
      rw [List.filterMap_map]
      exact congrFun (List.filterMap_eq_map (f := Prod.snd)) logs
    show String.join _ = _
    rw [hlogs,List.map_map]
    rfl

/-- The label goes stale only if a log entry or an object it refers to changes. -/
theorem ViewController.ShowsLogs.of_logs (hs : s.ShowsLogs describe) (hdata : t.persistedData = s.persistedData)
    (hlogs : ∀ i log, t.context.object? i = some (.choreLog log) ↔
      s.context.object? i = some (.choreLog log))
    (hlines : ∀ i log, s.context.object? i = some (.choreLog log) →
      logLine describe t.context log = logLine describe s.context log) : t.ShowsLogs describe := by
  obtain ⟨logs,⟨hnodup,hmem⟩,hshown⟩ := hs
  refine ⟨logs,⟨hnodup,fun i log => (hmem i log).trans (hlogs i log).symm⟩,?_⟩
  have hmap : logs.map (fun x => logLine describe s.context x.2) =
      logs.map fun x => logLine describe t.context x.2 := by
    apply List.map_congr_left
    intro x hx
    exact (hlines x.1 x.2 ((hmem x.1 x.2).mp hx)).symm
  rw [hdata,hshown,hmap]

theorem ViewController.ShowsLogs.of_context_eq (hs : s.ShowsLogs describe)
    (hdata : t.persistedData = s.persistedData) (hcontext : t.context = s.context) :
    t.ShowsLogs describe := by
  apply hs.of_logs hdata
  · intro i log
    rw [hcontext]
  · intro i log _
    rw [hcontext]

/-! ### Runs -/

theorem mirrors_choreTapped {choreField : String} (hintact : Intact s.context)
    (hs : s.Mirrors describe) (h : s.choreTapped describe env choreField = .ok t) :
    Intact t.context ∧ t.Mirrors describe := by
  have hsync := inSync_choreTapped hs.1 h
  obtain ⟨d,u,hcreated,hlog,h⟩ := choreTapped_eq_ok h
  obtain ⟨ht,_,_,hdata⟩ := updateChoreRoller_eq_ok h
  have hu : u.context = d := (updateLogList_eq_ok hlog).1
  refine ⟨?_,hsync,(shows_updateLogList hlog).of_context_eq hdata ht⟩
  rw [ht,hu]
  exact intact_created hintact hcreated (by decide)

theorem mirrors_personTapped {personField : String} (hintact : Intact s.context)
    (hs : s.Mirrors describe) (h : s.personTapped env personField = .ok t) :
    Intact t.context ∧ t.Mirrors describe := by
  have hsync := inSync_personTapped hs.1 h
  obtain ⟨d,hcreated,h⟩ := personTapped_eq_ok h
  obtain ⟨ht,_,_,hdata⟩ := updatePersonRoller_eq_ok h
  refine ⟨?_,hsync,?_⟩
  · rw [ht]
    exact intact_created hintact hcreated (by decide)
  · apply hs.2.of_logs hdata
    · rw [ht]
      exact log_created_iff hcreated (by decide)
    · rw [ht]
      exact fun i log hlog => logLine_created hintact hcreated hlog

theorem mirrors_deleteTapped (hintact : Intact s.context)
    (h : s.deleteTapped describe env = .ok t) : Intact t.context ∧ t.Mirrors describe := by
  have hsync := inSync_deleteTapped h
  obtain ⟨c,u,v,w,hchores,hpersons,hlog,hperson,hchore⟩ := deleteTapped_eq_ok h
  have hv : v.context = u.context := (updateLogList_eq_ok hlog).1
  obtain ⟨hw,_,_,hdataP⟩ := updatePersonRoller_eq_ok hperson
  obtain ⟨ht,_,_,hdataC⟩ := updateChoreRoller_eq_ok hchore
  have hcontext : t.context = v.context := ht.trans hw
  refine ⟨?_,hsync,(shows_updateLogList hlog).of_context_eq (hdataC.trans hdataP) hcontext⟩
  rw [hcontext,hv]
  exact intact_deleted (intact_deleted hintact hchores) hpersons

theorem mirrors_viewDidLoad {c : Context ManagedObject} {text : String}
    (h : viewDidLoad describe env c text = .ok t) : t.context = c ∧ t.Mirrors describe := by
  have hsync := inSync_viewDidLoad h
  obtain ⟨u,hchore,h⟩ := bind_eq_ok.mp h
  obtain ⟨v,hperson,hlog⟩ := bind_eq_ok.mp h
  have hu : u.context = c := (updateChoreRoller_eq_ok hchore).1
  have hv : v.context = u.context := (updatePersonRoller_eq_ok hperson).1
  have ht : t.context = v.context := (updateLogList_eq_ok hlog).1
  exact ⟨ht.trans (hv.trans hu),hsync,shows_updateLogList hlog⟩

theorem mirrors_step {e : CoreData × Event} (hs : Intact s.context ∧ s.Mirrors describe)
    (h : s.step describe e = .ok t) : Intact t.context ∧ t.Mirrors describe := by
  obtain ⟨env,e⟩ := e
  cases e with
  | choreTapped choreField => exact mirrors_choreTapped hs.1 hs.2 h
  | personTapped personField => exact mirrors_personTapped hs.1 hs.2 h
  | choreLogTapped choreRow personRow date =>
    exact absurd h (choreLogTapped_ne_ok env choreRow personRow date s t)
  | deleteTapped => exact mirrors_deleteTapped hs.1 h

/-- Over an intact store the screen shows the store's chores, persons and log entries
wherever the run loop is entered after `viewDidLoad`. -/
theorem screen_mirrors_store {c : Context ManagedObject} {text : String} (hintact : Intact c)
    (hload : viewDidLoad describe env c text = .ok s) {es : List (CoreData × Event)}
    (hrun : run (ViewController.step describe) s es = .ok t) : t.Mirrors describe := by
  obtain ⟨hs,hmirrors⟩ := mirrors_viewDidLoad hload
  exact (run_invariant (I := fun s => Intact s.context ∧ s.Mirrors describe)
    (fun _ _ _ => mirrors_step) ⟨hs ▸ hintact,hmirrors⟩ hrun).2

def choreBook : Context ManagedObject :=
  (dishes.context.insertNewObject (.choreLog ⟨some 7,some 0,some 1⟩)).committed

theorem choreBook_object? (i : ObjectID) : choreBook.object? i =
    if i = 2 then some (.choreLog ⟨some 7,some 0,some 1⟩) else dishes.context.object? i := by
  rw [choreBook,Context.object?_committed,Context.object?_insertNewObject]
  rfl

theorem intact_choreBook : Intact choreBook := by
  intro i log hlog
  rw [choreBook_object?] at hlog
  split_ifs at hlog with hi
  · obtain rfl := ManagedObject.choreLog.inj (Option.some.inj hlog)
    constructor
    · intro j hj
      rw [← Option.some.inj hj]
      rfl
    · intro j hj
      rw [← Option.some.inj hj]
      rfl
  · rw [dishes_object?] at hlog
    split_ifs at hlog with h₁ h₀
    · cases Option.some.inj hlog
    · cases Option.some.inj hlog

def byID : Describe := ⟨fun date => toString date,fun object => toString (object.map Prod.fst)⟩

def reliable : CoreData := ⟨⟨id,List.Perm.refl⟩,true,true⟩

def taps : List (CoreData × Event) :=
  [(reliable,.choreTapped "Laundry"),(reliable,.personTapped "Ben"),(reliable,.deleteTapped)]

theorem screen_mirrors_choreBook : ∃ s t, viewDidLoad byID reliable choreBook "Label" = .ok s ∧
    run (ViewController.step byID) s taps = .ok t ∧ t.Mirrors byID := by
  refine ⟨_,_,rfl,rfl,?_⟩
  exact screen_mirrors_store intact_choreBook
    (show viewDidLoad byID reliable choreBook "Label" = .ok _ from rfl)
    (show run (ViewController.step byID) _ taps = .ok _ from rfl)

/-! ### The rows of the pickers -/

/-- The rows a picker can report as selected: -1 if it has none, otherwise one of its own. -/
def PickerViewHelper.Reports (h : PickerViewHelper) (row : ℤ) : Prop :=
  if h.numberOfRowsInComponent = 0 then row = -1 else 0 ≤ row ∧ row < h.numberOfRowsInComponent

instance (h : PickerViewHelper) (row : ℤ) : Decidable (h.Reports row) :=
  inferInstanceAs (Decidable (if h.numberOfRowsInComponent = 0 then row = -1
    else 0 ≤ row ∧ row < h.numberOfRowsInComponent))

def ViewController.IndexesInBounds (s : ViewController) : Prop :=
  ∀ choreRow personRow, s.choreRollerHelper.Reports choreRow →
    s.personRollerHelper.Reports personRow →
      ∀ env date, s.choreLogTapped env choreRow personRow date ≠ .error .rangeException

def Event.tally : ℕ × ℕ → CoreData × Event → ℕ × ℕ
  | (chores,persons), (_,.choreTapped _) => (chores+1,persons)
  | (chores,persons), (_,.personTapped _) => (chores,persons+1)
  | (chores,persons), (_,.choreLogTapped _ _ _) => (chores,persons)
  | _, (_,.deleteTapped) => (0,0)

def numberOfObjects (entity : Entity) (c : Context ManagedObject) : ℕ :=
  (c.objects.filter fun x => x.2.entity = entity).length

def ViewController.numberOfRows (s : ViewController) : ℕ × ℕ :=
  (s.choreRollerHelper.numberOfRowsInComponent,s.personRollerHelper.numberOfRowsInComponent)

theorem PickerViewHelper.Holds.numberOfRows {entity : Entity} {c : Context ManagedObject}
    {h : PickerViewHelper} (hc : h.Holds entity c) :
    h.numberOfRowsInComponent = numberOfObjects entity c := by
  have hnodup : ((c.objects.filter fun x => x.2.entity = entity).map Prod.fst).Nodup :=
    c.nodup_executeFetchRequest ⟨id,List.Perm.refl⟩
      fun object : ManagedObject => object.entity = entity
  have hperm : h.pickerData.Perm ((c.objects.filter fun x => x.2.entity = entity).map Prod.fst) := by
    apply (List.perm_ext_iff_of_nodup hc.1 hnodup).mpr
    intro i
    rw [hc.2 i]
    simp [Context.mem_objects]
  rw [numberOfRowsInComponent,hperm.length_eq,List.length_map,numberOfObjects]

theorem PickerViewHelper.Holds.numberOfRows_created {entity : Entity} {c d : Context ManagedObject}
    {g h : PickerViewHelper} (hg : g.Holds entity c) (hh : h.Holds entity d)
    (hcreated : Created entity c d) :
    h.numberOfRowsInComponent = g.numberOfRowsInComponent+1 := by
  have hnext : c.next ∉ g.pickerData := by
    rw [hg.2,Context.object?_next]
    simp
  have hperm : h.pickerData.Perm (c.next::g.pickerData) := by
    apply (List.perm_ext_iff_of_nodup hh.1 (List.nodup_cons.mpr ⟨hnext,hg.1⟩)).mpr
    intro i
    rw [hh.2,List.mem_cons,hg.2]
    by_cases hi : i = c.next
    · simp [hi,hcreated.new]
    · simp [hi,hcreated.old i hi]
  exact hperm.length_eq

theorem numberOfRows_step {e : CoreData × Event} (hs : s.InSync)
    (h : s.step describe e = .ok t) : t.numberOfRows = Event.tally s.numberOfRows e := by
  have ht := inSync_step hs h
  obtain ⟨env,e⟩ := e
  cases e with
  | choreTapped choreField =>
    obtain ⟨d,u,hcreated,hlog,h⟩ := choreTapped_eq_ok h
    obtain ⟨hu,_,huperson⟩ := updateLogList_eq_ok hlog
    obtain ⟨hcontext,_,htperson,_⟩ := updateChoreRoller_eq_ok h
    have hd : t.context = d := hcontext.trans hu
    have hchores := hs.1.numberOfRows_created ht.1 (hd ▸ hcreated)
    exact Prod.ext hchores (by rw [ViewController.numberOfRows,htperson,huperson]; rfl)
  | personTapped personField =>
    obtain ⟨d,hcreated,h⟩ := personTapped_eq_ok h
    obtain ⟨hd,htchore,_,_⟩ := updatePersonRoller_eq_ok h
    have hpersons := hs.2.numberOfRows_created ht.2 (hd ▸ hcreated)
    exact Prod.ext (by rw [ViewController.numberOfRows,htchore]; rfl) hpersons
  | choreLogTapped choreRow personRow date =>
    exact absurd h (choreLogTapped_ne_ok env choreRow personRow date s t)
  | deleteTapped =>
    obtain ⟨_,hchores,hpersons⟩ := deleteTapped_empties h
    simp [ViewController.numberOfRows,PickerViewHelper.numberOfRowsInComponent,hchores,hpersons,
      Event.tally]

theorem numberOfRows_run {es : List (CoreData × Event)} (hs : s.InSync)
    (hrun : run (ViewController.step describe) s es = .ok t) :
    t.numberOfRows = es.foldl Event.tally s.numberOfRows := by
  induction es generalizing s with
  | nil =>
    obtain rfl := Except.ok.inj hrun
    rfl
  | cons e es ih =>
    obtain ⟨u,hu,hrun⟩ := run_cons_eq_ok.mp hrun
    rw [List.foldl_cons,← numberOfRows_step hs hu]
    exact ih (inSync_step hs hu) hrun

theorem PickerViewHelper.getItemFromArray_eq_ok {h : PickerViewHelper} {row : ℤ} :
    (∃ i, h.getItemFromArray row = .ok i) ↔
      (row % UInt64.size).toNat < h.numberOfRowsInComponent := by
  unfold getItemFromArray numberOfRowsInComponent
  cases hitem : h.pickerData[(row % UInt64.size).toNat]? with
  | none => simpa using hitem
  | some i => simpa using (List.getElem?_eq_some_iff.mp hitem).1

/-- The handler reaches the range exception exactly if one of its two lookups, both of
which read the chores, is out of bounds. -/
theorem choreLogTapped_inBounds_iff {choreRow personRow : ℤ} {date : NSDate} :
    s.choreLogTapped env choreRow personRow date ≠ .error .rangeException ↔
      (choreRow % UInt64.size).toNat < s.choreRollerHelper.numberOfRowsInComponent ∧
        (personRow % UInt64.size).toNat < s.choreRollerHelper.numberOfRowsInComponent := by
  rw [← PickerViewHelper.getItemFromArray_eq_ok,← PickerViewHelper.getItemFromArray_eq_ok]
  rcases getItemFromArray_cases choreRow s.choreRollerHelper with hchore | ⟨i,hchore⟩
  · simp [ViewController.choreLogTapped,hchore,bind,Except.bind]
  rcases getItemFromArray_cases personRow s.choreRollerHelper with hperson | ⟨j,hperson⟩
  · simp [ViewController.choreLogTapped,hchore,hperson,bind,Except.bind]
  · simp [ViewController.choreLogTapped,hchore,hperson,bind,Except.bind,
      send_setChore_done_createChoreMO]

/-- Enough chores for every row of either picker. The first case is beyond any array. -/
def EnoughChores : ℕ × ℕ → Prop
  | (chores,persons) => UInt64.size ≤ chores ∨ 0 < persons ∧ persons ≤ chores

theorem enoughChores_of_inBounds {g h : PickerViewHelper}
    (hbounds : ∀ choreRow personRow, g.Reports choreRow → h.Reports personRow →
      (choreRow % UInt64.size).toNat < g.numberOfRowsInComponent ∧
        (personRow % UInt64.size).toNat < g.numberOfRowsInComponent) :
    EnoughChores (g.numberOfRowsInComponent,h.numberOfRowsInComponent) := by
  obtain ⟨chores,hchores⟩ : ∃ n, g.numberOfRowsInComponent = n := ⟨_,rfl⟩
  obtain ⟨persons,hpersons⟩ : ∃ n, h.numberOfRowsInComponent = n := ⟨_,rfl⟩
  simp only [PickerViewHelper.Reports,hchores,hpersons,UInt64.size] at hbounds
  simp only [EnoughChores,hchores,hpersons,UInt64.size]
  by_contra hfew
  -- the row that is out of bounds: -1 of an empty picker, or the first person's beyond the chores
  have hrow := hbounds (if chores = 0 then -1 else 0) (if persons = 0 then -1 else chores)
  split_ifs at hrow with h₁ h₂ h₂ <;> omega

theorem reported_lt {h : PickerViewHelper} {row : ℤ} {chores : ℕ} (hreports : h.Reports row)
    (henough : EnoughChores (chores,h.numberOfRowsInComponent)) :
    (row % UInt64.size).toNat < chores := by
  simp only [PickerViewHelper.Reports] at hreports
  simp only [EnoughChores,UInt64.size] at henough
  rw [UInt64.size]
  split_ifs at hreports with hempty
  · omega
  · omega

theorem indexesInBounds_iff : s.IndexesInBounds ↔ EnoughChores s.numberOfRows := by
  simp only [ViewController.IndexesInBounds,choreLogTapped_inBounds_iff]
  constructor
  · intro h
    apply enoughChores_of_inBounds
    intro choreRow personRow hchore hperson
    exact h choreRow personRow hchore hperson ⟨⟨id,List.Perm.refl⟩,true,true⟩ 0
  · intro henough choreRow personRow hchore hperson _ _
    refine ⟨reported_lt hchore ?_,reported_lt hperson henough⟩
    simp only [EnoughChores,ViewController.numberOfRows] at henough ⊢
    omega

/-- After any taps from any store, both lookups are in bounds whatever is selected exactly
if there are persons, and no more of them than chores. -/
theorem indexesInBounds_run_iff {c : Context ManagedObject} {text : String}
    (hload : viewDidLoad describe env c text = .ok s) {es : List (CoreData × Event)}
    (hrun : run (ViewController.step describe) s es = .ok t) :
    t.IndexesInBounds ↔
      EnoughChores (es.foldl Event.tally (numberOfObjects .Chore c,numberOfObjects .Person c)) := by
  have hsync := inSync_viewDidLoad hload
  have hcontext : s.context = c := (mirrors_viewDidLoad hload).1
  have hstart : s.numberOfRows = (numberOfObjects .Chore c,numberOfObjects .Person c) := by
    rw [ViewController.numberOfRows,hsync.1.numberOfRows,hsync.2.numberOfRows,hcontext]
  rw [indexesInBounds_iff,numberOfRows_run hsync hrun,hstart]

theorem indexesInBounds_choreBook : ∃ s t,
    viewDidLoad byID reliable choreBook "Label" = .ok s ∧
      run (ViewController.step byID) s (taps.take 2) = .ok t ∧ t.IndexesInBounds := by
  refine ⟨_,_,rfl,rfl,?_⟩
  apply (indexesInBounds_run_iff
    (show viewDidLoad byID reliable choreBook "Label" = .ok _ from rfl)
    (show run (ViewController.step byID) _ (taps.take 2) = .ok _ from rfl)).mpr
  exact Or.inr (by decide)

/-- One chore and two persons: the second person's row is beyond the chores. -/
def twoPersons : List (CoreData × Event) :=
  [(reliable,.choreTapped "Dishes"),(reliable,.personTapped "Ann"),(reliable,.personTapped "Ben")]

theorem second_person_out_of_bounds : ∃ s t,
    viewDidLoad byID reliable Context.empty "Label" = .ok s ∧
      run (ViewController.step byID) s twoPersons = .ok t ∧
      t.choreRollerHelper.Reports 0 ∧ t.personRollerHelper.Reports 1 ∧
      t.choreLogTapped reliable 0 1 7 = .error .rangeException :=
  ⟨_,_,rfl,rfl,by decide,by decide,rfl⟩

end CoreDataCoursera
end CourseraObjC
