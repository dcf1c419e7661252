import CourseraObjC.ManagedContext
import CourseraObjC.Runs

/-! ToDoManager's edit screen, `MyUIViewController`. A handler changes the screen's own
fields and sends messages to the shared object context; a failing save throws, which
ends the run. The events may come in any order and number, since the controller
outlives its own disappearing for as long as the pop animation runs. -/
namespace CourseraObjC
namespace ToDoManager

abbrev NSDate := ℤ

structure ToDoEntity where
  lastUpdateDateTime : Option NSDate
  toDoDetails : Option String
  toDoTitle : Option String
  deriving DecidableEq

def ToDoEntity.new : ToDoEntity := ⟨none,none,none⟩

/-- The data model: `toDoTitle` is not optional and has minimum length 1. -/
def ToDoEntity.valid (a : ToDoEntity) : Bool :=
  match a.toDoTitle with
  | none => false
  | some title => decide (1 ≤ title.length)

inductive Attribute
  | lastUpdateDateTime (date : Option NSDate)
  | toDoDetails (text : Option String)
  | toDoTitle (text : Option String)
  deriving DecidableEq

def Attribute.assign : Attribute → ToDoEntity → ToDoEntity
  | .lastUpdateDateTime date, a => { a with lastUpdateDateTime := date }
  | .toDoDetails text, a => { a with toDoDetails := text }
  | .toDoTitle text, a => { a with toDoTitle := text }

/-- What a handler asks of the managed objects and their context. -/
inductive Message
  | set (e : ObjectID) (w : Attribute)
  | deleteObject (e : ObjectID)
  | save
  deriving DecidableEq

/-- The two ways the app ends itself: the `@throw` of `saveMyToDoEntity` and the
`abort()` of the app delegate. -/
inductive Failure
  | unableToSaveEntity
  | abort
  deriving DecidableEq

def Message.send (c : Context ToDoEntity) : Message → Except Failure (Context ToDoEntity)
  | .set e w => .ok (c.modify e w.assign)
  | .deleteObject e => .ok (c.deleteObject e)
  | .save =>
    match c.save ToDoEntity.valid true with
    | some d => .ok d
    | none => .error .unableToSaveEntity

inductive UIObject
  | viewController | titleField | createdAtPicker | commentsField
  deriving DecidableEq

/-- A text field or view displays an absent text as the empty one. -/
def shown (text : Option String) : String := text.getD ""

/-- The controller's outlets as what they display, its properties, and the posting
objects it observes for `UITextViewTextDidEndEditingNotification`. -/
structure MyUIViewController where
  titleField : String
  createdAtPicker : NSDate
  commentsField : String
  localToDoEntity : ObjectID
  wasDeleted : Bool
  observed : List UIObject
  deriving DecidableEq

namespace MyUIViewController

abbrev Reaction := MyUIViewController × List Message

def receiveToDoEntity (e : ObjectID) (storyboardDate : NSDate) : MyUIViewController :=
  ⟨"",storyboardDate,"",e,false,[]⟩

def viewWillAppear (c : Context ToDoEntity) (s : MyUIViewController) : MyUIViewController :=
  let entity := c.object? s.localToDoEntity
  let dueDate := entity.bind ToDoEntity.lastUpdateDateTime
  { s with
    wasDeleted := false
    titleField := shown (entity.bind ToDoEntity.toDoTitle)
    commentsField := shown (entity.bind ToDoEntity.toDoDetails)
    createdAtPicker := dueDate.getD s.createdAtPicker
    observed := .viewController::s.observed }

def saveMyToDoEntity : List Message := [.save]

def saveEverything (s : MyUIViewController) : List Message :=
  [.set s.localToDoEntity (.toDoDetails (some s.commentsField)),
   .set s.localToDoEntity (.lastUpdateDateTime (some s.createdAtPicker)),
   .set s.localToDoEntity (.toDoTitle (some s.titleField))] ++ saveMyToDoEntity

/-- `object` is the notification's object, compared with the controller itself. -/
def textViewDidEndEditing (object : UIObject) (s : MyUIViewController) : Reaction :=
  if object = .viewController then
    (s,.set s.localToDoEntity (.toDoDetails (some s.commentsField))::saveMyToDoEntity)
  else (s,[])

/-- The notification centre calls an observer registered with an object only for what
that object posts. -/
def postDidEndEditing (object : UIObject) (s : MyUIViewController) : Reaction :=
  if object ∈ s.observed then textViewDidEndEditing object s else (s,[])

def viewWillDisappear (s : MyUIViewController) : Reaction :=
  ({ s with observed := s.observed.filter (· ≠ .viewController) },
    if !s.wasDeleted then saveEverything s else [])

/-- The pop to the list that follows the save is the navigation controller's. -/
def trashTapped (s : MyUIViewController) : Reaction :=
  ({ s with wasDeleted := true },.deleteObject s.localToDoEntity::saveMyToDoEntity)

/-- `newDate` is the answer of `[NSDate new]`. -/
def titleFieldEdited (newDate : NSDate) (s : MyUIViewController) : Reaction :=
  ({ s with createdAtPicker := newDate },
    [.set s.localToDoEntity (.toDoTitle (some s.titleField)),
     .set s.localToDoEntity (.lastUpdateDateTime (some newDate))] ++ saveMyToDoEntity)

def dueDateEdited (s : MyUIViewController) : Reaction :=
  (s,.set s.localToDoEntity (.lastUpdateDateTime (some s.createdAtPicker))::saveMyToDoEntity)

end MyUIViewController

/-- What happens to the screen. Typing and picking change only what is displayed; the
storyboard connects `titleFieldEdited:` and `dueDateEdited:` to `editingDidEnd`, and
the comments view posts its notification with itself as the object. -/
inductive Event
  | typeTitle (text : String)
  | titleFieldEdited (newDate : NSDate)
  | pickDate (date : NSDate)
  | dueDateEdited
  | typeComments (text : String)
  | commentsDidEndEditing
  | trashTapped
  | viewWillDisappear
  deriving DecidableEq

def react (s : MyUIViewController) : Event → MyUIViewController.Reaction
  | .typeTitle text => ({ s with titleField := text },[])
  | .titleFieldEdited newDate => s.titleFieldEdited newDate
  | .pickDate date => ({ s with createdAtPicker := date },[])
  | .dueDateEdited => s.dueDateEdited
  | .typeComments text => ({ s with commentsField := text },[])
  | .commentsDidEndEditing => s.postDidEndEditing .commentsField
  | .trashTapped => s.trashTapped
  | .viewWillDisappear => s.viewWillDisappear

structure Editing where
  context : Context ToDoEntity
  screen : MyUIViewController

def sendAll (c : Context ToDoEntity) (ms : List Message) : Except Failure (Context ToDoEntity) :=
  Runs.run Message.send c ms

def Editing.step (s : Editing) (ev : Event) : Except Failure Editing :=
  match sendAll s.context (react s.screen ev).2 with
  | .ok c => .ok ⟨c,(react s.screen ev).1⟩
  | .error x => .error x

/-- What was tapped on the list: the '+' of the navigation bar, or a row, whose cell
hands over its entity. -/
inductive Sender
  | barButtonItem
  | cell (localToDoEntity : ObjectID)
  deriving DecidableEq

def Sender.Live (c : Context ToDoEntity) : Sender → Prop
  | .barButtonItem => True
  | .cell e => (c.object? e).isSome = true

instance (c : Context ToDoEntity) (sender : Sender) : Decidable (sender.Live c) := by
  cases sender <;> unfold Sender.Live <;> infer_instance

def prepareForSegue (c : Context ToDoEntity) : Sender → Context ToDoEntity × ObjectID
  | .barButtonItem => (c.insertNewObject ToDoEntity.new,c.next)
  | .cell e => (c,e)

def openScreen (c : Context ToDoEntity) (sender : Sender) (storyboardDate : NSDate) : Editing :=
  let p := prepareForSegue c sender
  ⟨p.1,(MyUIViewController.receiveToDoEntity p.2 storyboardDate).viewWillAppear p.1⟩

/-! ### What one event can do -/

@[simp] theorem react_localToDoEntity (s : MyUIViewController) (ev : Event) :
    (react s ev).1.localToDoEntity = s.localToDoEntity := by
  cases ev <;> simp only [react,MyUIViewController.titleFieldEdited,MyUIViewController.dueDateEdited,
    MyUIViewController.trashTapped,MyUIViewController.viewWillDisappear,
    MyUIViewController.postDidEndEditing,MyUIViewController.textViewDidEndEditing]
  split_ifs <;> rfl

@[simp] theorem react_wasDeleted (s : MyUIViewController) (ev : Event) :
    (react s ev).1.wasDeleted = (s.wasDeleted || decide (ev = .trashTapped)) := by
  cases ev <;> simp [react,MyUIViewController.titleFieldEdited,MyUIViewController.dueDateEdited,
    MyUIViewController.trashTapped,MyUIViewController.viewWillDisappear,
    MyUIViewController.postDidEndEditing,MyUIViewController.textViewDidEndEditing]

/-- The attributes a handler assigns before it saves; `none` if it sends nothing. -/
def edits (s : MyUIViewController) : Event → Option (List Attribute)
  | .titleFieldEdited newDate =>
    some [.toDoTitle (some s.titleField),.lastUpdateDateTime (some newDate)]
  | .dueDateEdited => some [.lastUpdateDateTime (some s.createdAtPicker)]
  | .viewWillDisappear =>
    if s.wasDeleted then none else
      some [.toDoDetails (some s.commentsField),.lastUpdateDateTime (some s.createdAtPicker),
        .toDoTitle (some s.titleField)]
  | _ => none

def assignAll (e : ObjectID) (ws : List Attribute) (c : Context ToDoEntity) : Context ToDoEntity :=
  ws.foldl (fun c w => c.modify e w.assign) c

@[simp] theorem object?_assignAll (e i : ObjectID) (ws : List Attribute) (c : Context ToDoEntity) :
    (assignAll e ws c).object? i =
      if i = e then (c.object? e).map (fun a => ws.foldl (fun a w => w.assign a) a)
      else c.object? i := by
  induction ws generalizing c with
  | nil => by_cases hi : i = e <;> simp [assignAll,hi]
  | cons w ws ih =>
    have h := ih (c.modify e w.assign)
    simp only [assignAll,List.foldl_cons] at h ⊢
    rw [h]
    by_cases hi : i = e <;> simp [hi,Function.comp_def]

/-- What no single assignment changes, assigning one after the other keeps. -/
theorem assignAll_keeps {β : Type*} {e : ObjectID} (f : Context ToDoEntity → β)
    (hf : ∀ (c : Context ToDoEntity) (w : Attribute), f (c.modify e w.assign) = f c)
    (ws : List Attribute) (c : Context ToDoEntity) : f (assignAll e ws c) = f c := by
  induction ws generalizing c with
  | nil => rfl
  | cons w ws ih => exact (ih (c.modify e w.assign)).trans (hf c w)

@[simp] theorem stored?_assignAll (e i : ObjectID) (ws : List Attribute) (c : Context ToDoEntity) :
    (assignAll e ws c).stored? i = c.stored? i :=
  assignAll_keeps (fun c => c.stored? i) (fun _ _ => by simp) ws c

@[simp] theorem next_assignAll (e : ObjectID) (ws : List Attribute) (c : Context ToDoEntity) :
    (assignAll e ws c).next = c.next :=
  assignAll_keeps Context.next (fun _ _ => by simp) ws c

/-- The context a handler asks to be saved; `none` if it asks for no save. -/
def toSave (s : Editing) : Event → Option (Context ToDoEntity)
  | .trashTapped => some (s.context.deleteObject s.screen.localToDoEntity)
  | ev => (edits s.screen ev).map (assignAll s.screen.localToDoEntity · s.context)

theorem toSave_of_ne {s : Editing} {ev : Event} (h : ev ≠ .trashTapped) :
    toSave s ev = (edits s.screen ev).map (assignAll s.screen.localToDoEntity · s.context) := by
  cases ev with
  | trashTapped => exact absurd rfl h
  | _ => rfl

theorem sendAll_save (c : Context ToDoEntity) :
    sendAll c [.save] =
      if c.Saveable ToDoEntity.valid then .ok c.committed else .error .unableToSaveEntity := by
  unfold sendAll Runs.run
  by_cases h : c.Saveable ToDoEntity.valid <;>
    simp [Message.send,Context.save,h,bind,Except.bind,pure,Except.pure]

theorem sendAll_assignments (c : Context ToDoEntity) (e : ObjectID) (ws : List Attribute) :
    sendAll c (ws.map (.set e) ++ [.save]) = sendAll (assignAll e ws c) [.save] := by
  induction ws generalizing c with
  | nil => rfl
  | cons w ws ih => exact ih (c.modify e w.assign)

/-- The comments view is never among the observed objects, so its notification runs
no handler. -/
theorem openScreen_observed (c : Context ToDoEntity) (sender : Sender) (date : NSDate) :
    .commentsField ∉ (openScreen c sender date).screen.observed := by
  simp [openScreen,MyUIViewController.viewWillAppear,MyUIViewController.receiveToDoEntity]

theorem postDidEndEditing_unobserved {object : UIObject} {s : MyUIViewController}
    (h : object ∉ s.observed) : s.postDidEndEditing object = (s,[]) := if_neg h

theorem react_observed {s : MyUIViewController} (h : .commentsField ∉ s.observed) (ev : Event) :
    .commentsField ∉ (react s ev).1.observed := by
  cases ev <;> simp only [react,MyUIViewController.titleFieldEdited,MyUIViewController.dueDateEdited,
    MyUIViewController.trashTapped,MyUIViewController.viewWillDisappear,
    postDidEndEditing_unobserved h] <;> simp [h]

theorem react_messages {s : Editing} (hobs : .commentsField ∉ s.screen.observed) (ev : Event) :
    sendAll s.context (react s.screen ev).2 =
      match toSave s ev with
      | none => .ok s.context
      | some c => sendAll c [.save] := by
  cases ev with
  | titleFieldEdited newDate =>
    exact sendAll_assignments s.context s.screen.localToDoEntity
      [.toDoTitle (some s.screen.titleField),.lastUpdateDateTime (some newDate)]
  | dueDateEdited =>
    exact sendAll_assignments s.context s.screen.localToDoEntity
      [.lastUpdateDateTime (some s.screen.createdAtPicker)]
  | viewWillDisappear =>
    cases hw : s.screen.wasDeleted with
    | true => simp [react,MyUIViewController.viewWillDisappear,toSave,edits,hw,sendAll]
    | false =>
      simp only [react,MyUIViewController.viewWillDisappear,toSave,edits,hw]
      exact sendAll_assignments s.context s.screen.localToDoEntity
        [.toDoDetails (some s.screen.commentsField),
          .lastUpdateDateTime (some s.screen.createdAtPicker),
          .toDoTitle (some s.screen.titleField)]
  | commentsDidEndEditing => simp [react,postDidEndEditing_unobserved hobs,toSave,edits,sendAll]
  | trashTapped => rfl
  | typeTitle text => rfl
  | pickDate date => rfl
  | typeComments text => rfl

theorem toSave_object?_ne {s : Editing} {ev : Event} {c : Context ToDoEntity}
    (h : toSave s ev = some c) {i : ObjectID} (hi : i ≠ s.screen.localToDoEntity) :
    c.object? i = s.context.object? i := by
  by_cases hev : ev = .trashTapped
  · subst hev
    obtain rfl := Option.some.inj h
    simp [hi]
  · rw [toSave_of_ne hev] at h
    obtain ⟨ws,_,rfl⟩ := Option.map_eq_some_iff.mp h
    simp [hi]

theorem toSave_object?_eq_none {s : Editing} {ev : Event} {c : Context ToDoEntity}
    (h : toSave s ev = some c) :
    c.object? s.screen.localToDoEntity = none ↔
      s.context.object? s.screen.localToDoEntity = none ∨ ev = .trashTapped := by
  by_cases hev : ev = .trashTapped
  · subst hev
    obtain rfl := Option.some.inj h
    simp
  · rw [toSave_of_ne hev] at h
    obtain ⟨ws,_,rfl⟩ := Option.map_eq_some_iff.mp h
    simp [hev]

theorem toSave_stored? {s : Editing} {ev : Event} {c : Context ToDoEntity}
    (h : toSave s ev = some c) (i : ObjectID) : c.stored? i = s.context.stored? i := by
  by_cases hev : ev = .trashTapped
  · subst hev
    obtain rfl := Option.some.inj h
    rfl
  · rw [toSave_of_ne hev] at h
    obtain ⟨ws,_,rfl⟩ := Option.map_eq_some_iff.mp h
    simp

theorem toSave_next {s : Editing} {ev : Event} {c : Context ToDoEntity}
    (h : toSave s ev = some c) : c.next = s.context.next := by
  by_cases hev : ev = .trashTapped
  · subst hev
    obtain rfl := Option.some.inj h
    rfl
  · rw [toSave_of_ne hev] at h
    obtain ⟨ws,_,rfl⟩ := Option.map_eq_some_iff.mp h
    simp

theorem step_completes_iff {s : Editing} (hobs : .commentsField ∉ s.screen.observed) (ev : Event) :
    (∃ t, s.step ev = .ok t) ↔ ∀ c, toSave s ev = some c → c.Saveable ToDoEntity.valid := by
  unfold Editing.step
  rw [react_messages hobs]
  cases h : toSave s ev with
  | none => simp
  | some c => by_cases hc : c.Saveable ToDoEntity.valid <;> simp [sendAll_save,hc]

/-- Everything a successful event does: the screen reacts, and either the context is
as before or what the handler asked for has been saved. -/
theorem step_eq_ok {s t : Editing} (hobs : .commentsField ∉ s.screen.observed) {ev : Event}
    (h : s.step ev = .ok t) :
    t.screen = (react s.screen ev).1 ∧
      (toSave s ev = none ∧ t.context = s.context ∨
        ∃ c, toSave s ev = some c ∧ c.Saveable ToDoEntity.valid ∧ t.context = c.committed) := by
  unfold Editing.step at h
  rw [react_messages hobs] at h
  cases hsave : toSave s ev with
  | none =>
    simp only [hsave,Except.ok.injEq] at h
    subst h
    exact ⟨rfl,Or.inl ⟨rfl,rfl⟩⟩
  | some c =>
    by_cases hc : c.Saveable ToDoEntity.valid
    · simp only [hsave,sendAll_save,hc,if_true,Except.ok.injEq] at h
      subst h
      exact ⟨rfl,Or.inr ⟨c,rfl,hc,rfl⟩⟩
    · simp [hsave,sendAll_save,hc] at h

end ToDoManager
end CourseraObjC
