import CourseraObjC.EditScreen

/-! Runs of the edit screen: which finished edits reach the persistent store, and what
happens to an entity once its trash button has been tapped. -/
namespace CourseraObjC
namespace ToDoManager

open Runs

/-! ### Durability of a finished edit -/

def Event.StaysOpen (ev : Event) : Prop := ev ≠ .trashTapped ∧ ev ≠ .viewWillDisappear

/-- Right after the end of an edit the store's copy holds the text the field displays. -/
def Durable (t : Editing) : Event → Prop
  | .titleFieldEdited _ =>
    (t.context.stored? t.screen.localToDoEntity).map (fun a => shown a.toDoTitle) =
      some t.screen.titleField
  | .commentsDidEndEditing =>
    (t.context.stored? t.screen.localToDoEntity).map (fun a => shown a.toDoDetails) =
      some t.screen.commentsField
  | _ => True

/-- The comments view ends editing with the text it was opened with, on an entity that
already has a row. -/
def Unedited (comments : String) (s : Editing) : Event → Prop
  | .commentsDidEndEditing =>
    (∃ a, s.context.stored? s.screen.localToDoEntity = some a) ∧
      s.screen.commentsField = comments
  | _ => True

/-- While the screen is up no handler writes the details: the copies in the context and
in the store keep the ones the comments view was opened with. -/
structure Showing (e : ObjectID) (comments : String) (s : Editing) : Prop where
  entity : s.screen.localToDoEntity = e
  unobserved : .commentsField ∉ s.screen.observed
  live : (s.context.object? e).map (fun a => shown a.toDoDetails) = some comments
  stored : ∀ a, s.context.stored? e = some a → shown a.toDoDetails = comments

theorem showing_openScreen {c : Context ToDoEntity} (hc : c.Settled) {sender : Sender}
    (hs : sender.Live c) (date : NSDate) :
    Showing (openScreen c sender date).screen.localToDoEntity
      (openScreen c sender date).screen.commentsField (openScreen c sender date) where
  entity := rfl
  unobserved := openScreen_observed c sender date
  live := by
    cases sender with
    | barButtonItem =>
      simp [openScreen,prepareForSegue,MyUIViewController.viewWillAppear,
        MyUIViewController.receiveToDoEntity]
    | cell e =>
      obtain ⟨a,ha⟩ := Option.isSome_iff_exists.mp hs
      simp [openScreen,prepareForSegue,MyUIViewController.viewWillAppear,
        MyUIViewController.receiveToDoEntity,ha]
  stored := by
    intro a ha
    cases sender with
    | barButtonItem =>
      have hnone : c.stored? c.next = none := by rw [hc,Context.object?_next]
      simp [openScreen,prepareForSegue,MyUIViewController.viewWillAppear,
        MyUIViewController.receiveToDoEntity,hnone] at ha
    | cell e =>
      have hobj : c.object? e = some a := by rw [← hc]; exact ha
      simp [openScreen,prepareForSegue,MyUIViewController.viewWillAppear,
        MyUIViewController.receiveToDoEntity,hobj]

theorem edits_details {s : MyUIViewController} {ev : Event} (hev : ev.StaysOpen)
    {ws : List Attribute} (h : edits s ev = some ws) (a : ToDoEntity) :
    (ws.foldl (fun a w => w.assign a) a).toDoDetails = a.toDoDetails := by
  cases ev with
  | viewWillDisappear => exact absurd rfl hev.2
  | titleFieldEdited newDate => obtain rfl := Option.some.inj h; rfl
  | dueDateEdited => obtain rfl := Option.some.inj h; rfl
  | _ => cases h

theorem Showing.step {e : ObjectID} {comments : String} {s t : Editing} {ev : Event}
    (hev : ev.StaysOpen) (hs : Showing e comments s) (h : s.step ev = .ok t) :
    Showing e comments t := by
  obtain ⟨hscreen,hctx⟩ := step_eq_ok hs.unobserved h
  have hent : t.screen.localToDoEntity = e := by rw [hscreen,react_localToDoEntity,hs.entity]
  have hobs : .commentsField ∉ t.screen.observed := by
    rw [hscreen]
    exact react_observed hs.unobserved ev
  rcases hctx with ⟨_,hsame⟩ | ⟨c,hsave,_,hcommit⟩
  · exact ⟨hent,hobs,by rw [hsame]; exact hs.live,by rw [hsame]; exact hs.stored⟩
  · rw [toSave_of_ne hev.1] at hsave
    obtain ⟨ws,hws,rfl⟩ := Option.map_eq_some_iff.mp hsave
    obtain ⟨a,ha,hd⟩ := Option.map_eq_some_iff.mp hs.live
    have hobj : t.context.object? e = some (ws.foldl (fun a w => w.assign a) a) := by
      simp [hcommit,hs.entity,ha]
    have hdet := edits_details hev hws a
    refine ⟨hent,hobs,by simp [hobj,hdet,hd],fun b hb => ?_⟩
    have hst : t.context.stored? e = some b := hb
    rw [hcommit,Context.stored?_committed,← Context.object?_committed,← hcommit,hobj] at hst
    obtain rfl := Option.some.inj hst
    rw [hdet,hd]

theorem durable_step_iff {e : ObjectID} {comments : String} {s : Editing} (ev : Event)
    (hs : Showing e comments s) :
    (∀ t, s.step ev = .ok t → Durable t ev) ↔ Unedited comments s ev := by
  cases ev with
  | titleFieldEdited newDate =>
    simp only [Unedited,iff_true]
    intro t ht
    obtain ⟨hscreen,⟨hnone,_⟩ | ⟨c,hsave,_,hcommit⟩⟩ := step_eq_ok hs.unobserved ht
    · cases hnone
    · obtain rfl := Option.some.inj hsave
      obtain ⟨a,ha,_⟩ := Option.map_eq_some_iff.mp hs.live
      simp [Durable,hcommit,hscreen,hs.entity,ha,react,MyUIViewController.titleFieldEdited,shown,
        Attribute.assign]
  | commentsDidEndEditing =>
    have hstep : s.step .commentsDidEndEditing = .ok s := by
      simp [Editing.step,react,postDidEndEditing_unobserved hs.unobserved,sendAll]
    simp only [hstep,Except.ok.injEq,forall_eq',Durable,Unedited,hs.entity]
    cases hst : s.context.stored? e with
    | none => simp
    | some a => simp [hs.stored a hst,eq_comm]
  | _ => exact iff_of_true (fun _ _ => trivial) trivial

/-- Along a run from the list with nothing pending, every finished edit is durable
exactly if the comments view never ends editing with a new text. -/
theorem finished_edit_durable_iff {c : Context ToDoEntity} (hc : c.Settled) {sender : Sender}
    (hs : sender.Live c) (date : NSDate) {es : List Event} (hes : ∀ ev ∈ es, ev.StaysOpen) :
    Along Editing.step (fun s ev => ∀ t, s.step ev = .ok t → Durable t ev)
        (openScreen c sender date) es ↔
      Along Editing.step (Unedited (openScreen c sender date).screen.commentsField)
        (openScreen c sender date) es :=
  along_congr (I := Showing (openScreen c sender date).screen.localToDoEntity
      (openScreen c sender date).screen.commentsField)
    (fun ev hev _ _ hI h => hI.step (hes ev hev) h)
    (fun ev _ _ hI => durable_step_iff ev hI) (showing_openScreen hc hs date)

def milkStore : Context ToDoEntity :=
  Context.ofStore (AList.singleton 0 ⟨some 5,none,some "Buy milk"⟩) 1
    (by simp [AList.mem_keys])

def milkScreen : Editing := openScreen milkStore (.cell 0) 0

theorem finished_edit_durable_iff_milk :
    Along Editing.step (fun s ev => ∀ t, s.step ev = .ok t → Durable t ev) milkScreen
        [.typeTitle "Buy tea",.titleFieldEdited 7] ↔
      Along Editing.step (Unedited "") milkScreen [.typeTitle "Buy tea",.titleFieldEdited 7] :=
  finished_edit_durable_iff (Context.settled_ofStore _ _ _)
    (show Sender.Live milkStore (.cell 0) from rfl) 0 (by simp [Event.StaysOpen])

/-- A comment typed and left for another field is not in the store. -/
theorem comments_edit_not_durable :
    ¬ Along Editing.step (fun s ev => ∀ t, s.step ev = .ok t → Durable t ev) milkScreen
        [.typeComments "two litres",.commentsDidEndEditing] := by
  intro h
  have hdur : some "" = some "two litres" := (h.2 _ rfl).1 _ rfl
  exact absurd hdur (by decide)

/-! ### A trashed entity -/

def Message.ActsOn (e : ObjectID) : Message → Prop
  | .set i _ => i = e
  | .deleteObject _ => False
  | .save => True

def StaysDead (start : Editing) (es : List Event) : Prop :=
  ∀ before ev after, es = before ++ ev::after → .trashTapped ∈ before →
    ∀ t, run Editing.step start before = .ok t →
      ∀ m ∈ (react t.screen ev).2, ¬ m.ActsOn start.screen.localToDoEntity

def LeavesOthers (start : Editing) (es : List Event) : Prop :=
  ∀ before ev after, es = before ++ ev::after →
    ∀ t u, run Editing.step start before = .ok t → t.step ev = .ok u →
      ∀ i ≠ start.screen.localToDoEntity,
        u.context.object? i = t.context.object? i ∧ u.context.stored? i = t.context.stored? i

def Event.Unguarded : Event → Prop
  | .titleFieldEdited _ | .dueDateEdited | .trashTapped => True
  | _ => False

/-- After the trash tap neither the title nor the date ends its editing, and trash is not
tapped again. -/
def QuietAfterTrash (start : Editing) (es : List Event) : Prop :=
  ∀ before ev after, es = before ++ ev::after → .trashTapped ∈ before →
    (∃ t, run Editing.step start before = .ok t) → ¬ ev.Unguarded

structure WorksOn (e : ObjectID) (s : Editing) : Prop where
  entity : s.screen.localToDoEntity = e
  unobserved : .commentsField ∉ s.screen.observed
  others : ∀ i ≠ e, s.context.stored? i = s.context.object? i

theorem worksOn_openScreen {c : Context ToDoEntity} (hc : c.Settled) (sender : Sender)
    (date : NSDate) :
    WorksOn (openScreen c sender date).screen.localToDoEntity (openScreen c sender date) where
  entity := rfl
  unobserved := openScreen_observed c sender date
  others := by
    intro i hi
    cases sender with
    | cell e => exact hc i
    | barButtonItem =>
      have hne : i ≠ c.next := hi
      simp [openScreen,prepareForSegue,hne,hc i]

theorem WorksOn.frame {e : ObjectID} {s t : Editing} {ev : Event} (hs : WorksOn e s)
    (h : s.step ev = .ok t) {i : ObjectID} (hi : i ≠ e) :
    t.context.object? i = s.context.object? i ∧ t.context.stored? i = s.context.stored? i := by
  obtain ⟨_,⟨_,hsame⟩ | ⟨c,hsave,_,hcommit⟩⟩ := step_eq_ok hs.unobserved h
  · rw [hsame]
    exact ⟨rfl,rfl⟩
  · have hobj := toSave_object?_ne hsave (by rw [hs.entity]; exact hi)
    rw [hcommit]
    exact ⟨hobj,by rw [Context.stored?_committed,hobj,hs.others i hi]⟩

theorem WorksOn.step {e : ObjectID} (ev : Event) (s t : Editing) (hs : WorksOn e s)
    (h : s.step ev = .ok t) : WorksOn e t where
  entity := by rw [(step_eq_ok hs.unobserved h).1,react_localToDoEntity,hs.entity]
  unobserved := by
    rw [(step_eq_ok hs.unobserved h).1]
    exact react_observed hs.unobserved ev
  others := by
    intro i hi
    have hframe := hs.frame h hi
    rw [hframe.1,hframe.2,hs.others i hi]

theorem step_wasDeleted {s t : Editing} {ev : Event} (h : s.step ev = .ok t)
    (hd : s.screen.wasDeleted = true ∨ ev = .trashTapped) : t.screen.wasDeleted = true := by
  have hscreen : t.screen = (react s.screen ev).1 := by
    unfold Editing.step at h
    split at h
    · rw [← Except.ok.inj h]
    · cases h
  rw [hscreen,react_wasDeleted]
  simpa using hd

theorem run_wasDeleted {s t : Editing} {es : List Event} (hrun : run Editing.step s es = .ok t)
    (hd : s.screen.wasDeleted = true ∨ .trashTapped ∈ es) : t.screen.wasDeleted = true := by
  induction es generalizing s with
  | nil =>
    obtain rfl : s = t := by simpa using hrun
    simpa using hd
  | cons ev es ih =>
    obtain ⟨a,ha,hrest⟩ := run_cons_eq_ok.mp hrun
    rcases hd with hd | hd
    · exact ih hrest (Or.inl (step_wasDeleted ha (Or.inl hd)))
    · rcases List.mem_cons.mp hd with rfl | hd
      · exact ih hrest (Or.inl (step_wasDeleted ha (Or.inr rfl)))
      · exact ih hrest (Or.inr hd)

/-- With the flag set, a handler acts on the entity exactly if it ignores the flag. -/
theorem acts_iff_unguarded {e : ObjectID} {s : Editing} (hs : WorksOn e s)
    (hd : s.screen.wasDeleted = true) (ev : Event) :
    (∃ m ∈ (react s.screen ev).2, m.ActsOn e) ↔ ev.Unguarded := by
  cases ev <;> simp [react,MyUIViewController.titleFieldEdited,MyUIViewController.dueDateEdited,
    MyUIViewController.trashTapped,MyUIViewController.viewWillDisappear,
    MyUIViewController.saveMyToDoEntity,postDidEndEditing_unobserved hs.unobserved,
    Event.Unguarded,Message.ActsOn,hd]

theorem leavesOthers_openScreen {c : Context ToDoEntity} (hc : c.Settled) (sender : Sender)
    (date : NSDate) (es : List Event) : LeavesOthers (openScreen c sender date) es := by
  intro before ev after _ t u ht hu i hi
  exact (run_invariant WorksOn.step (worksOn_openScreen hc sender date) ht).frame hu hi

/-- A trashed entity stays dead exactly if no unguarded handler fires after the tap;
the other entities are left alone in any case. -/
theorem trashed_entity_stays_dead_iff {c : Context ToDoEntity} (hc : c.Settled) (sender : Sender)
    (date : NSDate) (es : List Event) :
    StaysDead (openScreen c sender date) es ∧ LeavesOthers (openScreen c sender date) es ↔
      QuietAfterTrash (openScreen c sender date) es := by
  have hinv {before t} (ht : run Editing.step (openScreen c sender date) before = .ok t) :=
    run_invariant WorksOn.step (worksOn_openScreen hc sender date) ht
  constructor
  · rintro ⟨hdead,_⟩ before ev after heq htrash ⟨t,ht⟩ hev
    obtain ⟨m,hm,hacts⟩ :=
      (acts_iff_unguarded (hinv ht) (run_wasDeleted ht (Or.inr htrash)) ev).mpr hev
    exact hdead before ev after heq htrash t ht m hm hacts
  · intro hquiet
    refine ⟨?_,leavesOthers_openScreen hc sender date es⟩
    intro before ev after heq htrash t ht m hm hacts
    exact hquiet before ev after heq htrash ⟨t,ht⟩
      ((acts_iff_unguarded (hinv ht) (run_wasDeleted ht (Or.inr htrash)) ev).mp ⟨m,hm,hacts⟩)

theorem trashed_milk_stays_dead_iff :
    StaysDead milkScreen [.trashTapped,.viewWillDisappear] ∧
        LeavesOthers milkScreen [.trashTapped,.viewWillDisappear] ↔
      QuietAfterTrash milkScreen [.trashTapped,.viewWillDisappear] :=
  trashed_entity_stays_dead_iff (Context.settled_ofStore _ _ _) (.cell 0) 0 _

/-- The title field resigns as the screen is popped, and its handler writes and saves. -/
theorem title_handler_writes_trashed :
    ¬ (StaysDead milkScreen [.trashTapped,.titleFieldEdited 7,.viewWillDisappear] ∧
      LeavesOthers milkScreen [.trashTapped,.titleFieldEdited 7,.viewWillDisappear]) := by
  rintro ⟨hdead,_⟩
  obtain ⟨t,ht⟩ : ∃ t, run Editing.step milkScreen [.trashTapped] = .ok t := ⟨_,rfl⟩
  exact hdead [.trashTapped] (.titleFieldEdited 7) [.viewWillDisappear] rfl (by simp) t ht .save
    (by simp [react,MyUIViewController.titleFieldEdited,MyUIViewController.saveMyToDoEntity]) trivial

end ToDoManager
end CourseraObjC
