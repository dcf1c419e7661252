import CourseraObjC.EditScreenRuns

/-! ToDoManager as a whole: the list, the edit screen pushed over it, and the app
delegate's last save, all over one shared context. -/
namespace CourseraObjC
namespace ToDoManager

open Runs

/-- The controller of a screen that was left lives on until the next segue, and its
handlers may still run. -/
structure App where
  context : Context ToDoEntity
  screen : Option MyUIViewController
  editing : Bool

inductive UserAction
  | segue (sender : Sender) (storyboardDate : NSDate)
  | edit (ev : Event)
  deriving DecidableEq

namespace App

def launch (c : Context ToDoEntity) : App := ⟨c,none,false⟩

/-- The list can be tapped only while it is showing, and only a screen that is up can be
left; a tap on what is not there does nothing. -/
def step (s : App) : UserAction → Except Failure App
  | .segue sender date =>
    if s.editing = false ∧ sender.Live s.context then
      let t := openScreen s.context sender date
      .ok ⟨t.context,some t.screen,true⟩
    else .ok s
  | .edit ev =>
    match s.screen with
    | none => .ok s
    | some v =>
      if ev = .viewWillDisappear ∧ s.editing = false then .ok s
      else
        match Editing.step ⟨s.context,v⟩ ev with
        | .ok t => .ok ⟨t.context,some t.screen,s.editing && decide (ev ≠ .viewWillDisappear)⟩
        | .error x => .error x

/-- `applicationWillTerminate:` saves what has changed, and aborts if that fails. -/
def saveContext (s : App) : Except Failure App :=
  if s.context.hasChanges then
    match s.context.save ToDoEntity.valid true with
    | some c => .ok { s with context := c }
    | none => .error .abort
  else .ok s

end App

theorem valid_iff (a : ToDoEntity) : a.valid = true ↔ ∃ t, a.toDoTitle = some t ∧ t ≠ "" := by
  unfold ToDoEntity.valid
  cases h : a.toDoTitle with
  | none => simp
  | some t => simp [Nat.one_le_iff_ne_zero,String.length_eq_zero_iff]

def HasTitle (c : Context ToDoEntity) (v : MyUIViewController) : Prop :=
  v.wasDeleted = true ∨ ∃ a, c.object? v.localToDoEntity = some a ∧ a.valid = true

def ShowsTitle (v : MyUIViewController) : Prop := v.wasDeleted = true ∨ v.titleField ≠ ""

/-- The handlers that save the title field find a text in it, and the handler that
saves the date alone finds a titled entity. -/
def Titled (s : App) : UserAction → Prop
  | .segue _ _ => True
  | .edit ev => ∀ v, s.screen = some v →
    match ev with
    | .titleFieldEdited _ => ShowsTitle v
    | .viewWillDisappear => s.editing = true → ShowsTitle v
    | .dueDateEdited => HasTitle s.context v
    | _ => True

/-- What is stored is valid, and so are all entities but possibly the one being edited;
nothing is pending once the screen has been left or its entity trashed. -/
structure Guarded (s : App) : Prop where
  stored : ∀ i a, s.context.stored? i = some a → a.valid = true
  others : ∀ i a, s.context.object? i = some a →
    a.valid = true ∨ s.editing = true ∧ ∃ v, s.screen = some v ∧ v.localToDoEntity = i
  unobserved : ∀ v, s.screen = some v → .commentsField ∉ v.observed
  deleted : ∀ v, s.screen = some v →
    (v.wasDeleted = true ↔ s.context.object? v.localToDoEntity = none)
  issued : ∀ v, s.screen = some v → v.localToDoEntity < s.context.next
  settled : s.editing = false → s.context.Settled
  trashed : ∀ v, s.screen = some v → v.wasDeleted = true → s.context.Settled

theorem guarded_launch {c : Context ToDoEntity} (hc : c.Settled)
    (hvalid : ∀ i a, c.stored? i = some a → a.valid = true) : Guarded (App.launch c) where
  stored := hvalid
  others i a ha := Or.inl (hvalid i a (by rw [hc]; exact ha))
  unobserved _ hv := by cases hv
  deleted _ hv := by cases hv
  issued _ hv := by cases hv
  settled _ := hc
  trashed _ hv := by cases hv

theorem Guarded.not_deleted_iff {s : App} (hs : Guarded s) {v : MyUIViewController}
    (hv : s.screen = some v) :
    v.wasDeleted = false ↔ ∃ a, s.context.object? v.localToDoEntity = some a := by
  rw [← Bool.not_eq_true,hs.deleted v hv,← Option.ne_none_iff_exists']

theorem saveable_toSave_iff {s : App} (hs : Guarded s) {v : MyUIViewController}
    (hv : s.screen = some v) {ev : Event} {c : Context ToDoEntity}
    (hc : toSave ⟨s.context,v⟩ ev = some c) :
    c.Saveable ToDoEntity.valid ↔
      ∀ a, c.object? v.localToDoEntity = some a → a.valid = true := by
  rw [Context.saveable_iff (fun i a ha => hs.stored i a (by rw [← ha,toSave_stored? hc]))]
  constructor
  · intro h a ha
    exact h _ a ha
  · intro h i a ha
    by_cases hi : i = v.localToDoEntity
    · subst hi
      exact h a ha
    · rw [toSave_object?_ne hc hi] at ha
      rcases hs.others i a ha with hvalid | ⟨_,w,hw,hwi⟩
      · exact hvalid
      · obtain rfl : v = w := Option.some.inj (hv.symm.trans hw)
        exact absurd hwi.symm hi

theorem edit_completes_iff {s : App} (hs : Guarded s) {v : MyUIViewController}
    (hv : s.screen = some v) (ev : Event) :
    (∃ t, Editing.step ⟨s.context,v⟩ ev = .ok t) ↔
      match ev with
      | .titleFieldEdited _ => ShowsTitle v
      | .viewWillDisappear => ShowsTitle v
      | .dueDateEdited => HasTitle s.context v
      | _ => True := by
  have hdel := hs.deleted v hv
  rw [step_completes_iff (hs.unobserved v hv)]
  cases ev with
  | titleFieldEdited newDate =>
    have hsave : toSave ⟨s.context,v⟩ (.titleFieldEdited newDate) = some _ := rfl
    simp only [hsave,Option.some.injEq,forall_eq',saveable_toSave_iff hs hv hsave]
    cases ho : s.context.object? v.localToDoEntity with
    | none => simp [ho,ShowsTitle,hdel.mpr ho]
    | some a =>
      have hw : v.wasDeleted = false := (hs.not_deleted_iff hv).mpr ⟨a,ho⟩
      simp [ho,ShowsTitle,hw,valid_iff,Attribute.assign]
  | dueDateEdited =>
    have hsave : toSave ⟨s.context,v⟩ .dueDateEdited = some _ := rfl
    simp only [hsave,Option.some.injEq,forall_eq',saveable_toSave_iff hs hv hsave]
    cases ho : s.context.object? v.localToDoEntity with
    | none => simp [ho,HasTitle,hdel.mpr ho]
    | some a =>
      have hw : v.wasDeleted = false := (hs.not_deleted_iff hv).mpr ⟨a,ho⟩
      simp [ho,HasTitle,hw,valid_iff,Attribute.assign]
  | viewWillDisappear =>
    cases hw : v.wasDeleted with
    | true => simp [toSave,edits,hw,ShowsTitle]
    | false =>
      have hsave : toSave ⟨s.context,v⟩ .viewWillDisappear =
          some (assignAll v.localToDoEntity [.toDoDetails (some v.commentsField),
            .lastUpdateDateTime (some v.createdAtPicker),.toDoTitle (some v.titleField)]
              s.context) := by
        simp [toSave,edits,hw]
      simp only [hsave,Option.some.injEq,forall_eq',saveable_toSave_iff hs hv hsave]
      obtain ⟨a,ha⟩ := (hs.not_deleted_iff hv).mp hw
      simp [ha,ShowsTitle,hw,valid_iff,Attribute.assign]
  | trashTapped =>
    have hsave : toSave ⟨s.context,v⟩ .trashTapped = some _ := rfl
    simp [hsave,saveable_toSave_iff hs hv hsave]
  | _ => simp [toSave,edits]

theorem step_completes_iff_titled (act : UserAction) (s : App) (hs : Guarded s) :
    (∃ t, s.step act = .ok t) ↔ Titled s act := by
  cases act with
  | segue sender date =>
    simp only [Titled,iff_true,App.step]
    split_ifs <;> exact ⟨_,rfl⟩
  | edit ev =>
    cases hv : s.screen with
    | none => simp [App.step,hv,Titled]
    | some v =>
      have hiff := edit_completes_iff hs hv ev
      by_cases hleft : ev = .viewWillDisappear ∧ s.editing = false
      · simp [App.step,hv,hleft.1,hleft.2,Titled]
      · have hstep : (∃ t, s.step (.edit ev) = .ok t) ↔
            ∃ t, Editing.step ⟨s.context,v⟩ ev = .ok t := by
          simp only [App.step,hv,hleft,if_false]
          cases Editing.step ⟨s.context,v⟩ ev <;> simp
        rw [hstep,hiff]
        simp only [Titled,hv,Option.some.injEq,forall_eq']
        cases ev with
        | viewWillDisappear =>
          have hup : s.editing = true := by simpa using hleft
          simp [hup]
        | _ => rfl

theorem Guarded.live_valid {s : App} (hs : Guarded s) (h : s.editing = false) {i : ObjectID}
    {a : ToDoEntity} (ha : s.context.object? i = some a) : a.valid = true := by
  rcases hs.others i a ha with hvalid | ⟨hup,_⟩
  · exact hvalid
  · simp [h] at hup

theorem guarded_openScreen {s : App} (hs : Guarded s) (hlist : s.editing = false)
    {sender : Sender} (hlive : sender.Live s.context) (date : NSDate) :
    Guarded ⟨(openScreen s.context sender date).context,
      some (openScreen s.context sender date).screen,true⟩ := by
  have hobs := openScreen_observed s.context sender date
  cases sender with
  | cell e =>
    obtain ⟨b,hb⟩ := Option.isSome_iff_exists.mp hlive
    exact {
      stored := hs.stored
      others := fun i a ha => Or.inl (hs.live_valid hlist ha)
      unobserved := by rintro v ⟨rfl⟩; exact hobs
      deleted := by
        rintro v ⟨rfl⟩
        simp [openScreen,prepareForSegue,MyUIViewController.viewWillAppear,
          MyUIViewController.receiveToDoEntity,hb]
      issued := by rintro v ⟨rfl⟩; exact Context.object?_lt hb
      settled := by rintro ⟨⟩
      trashed := by rintro v ⟨rfl⟩ ⟨⟩ }
  | barButtonItem =>
    exact {
      stored := hs.stored
      others := by
        intro i a ha
        by_cases hi : i = s.context.next
        · exact Or.inr ⟨rfl,_,rfl,hi.symm⟩
        · have hold : s.context.object? i = some a := by
            simpa [openScreen,prepareForSegue,hi] using ha
          exact Or.inl (hs.live_valid hlist hold)
      unobserved := by rintro v ⟨rfl⟩; exact hobs
      deleted := by
        rintro v ⟨rfl⟩
        simp [openScreen,prepareForSegue,MyUIViewController.viewWillAppear,
          MyUIViewController.receiveToDoEntity]
      issued := by
        rintro v ⟨rfl⟩
        exact Nat.lt_succ_self _
      settled := by rintro ⟨⟩
      trashed := by rintro v ⟨rfl⟩ ⟨⟩ }

theorem guarded_saved {s : App} (hs : Guarded s) {v : MyUIViewController}
    (hv : s.screen = some v) {ev : Event} {c : Context ToDoEntity}
    (hsave : toSave ⟨s.context,v⟩ ev = some c) (hc : c.Saveable ToDoEntity.valid) (up : Bool) :
    Guarded ⟨c.committed,some (react v ev).1,up⟩ := by
  have hvalid : ∀ i a, c.object? i = some a → a.valid = true :=
    (Context.saveable_iff fun i a ha => hs.stored i a (by rw [← ha,toSave_stored? hsave])).mp hc
  exact {
    stored := hvalid
    others := fun i a ha => Or.inl (hvalid i a ha)
    unobserved := by
      rintro w ⟨rfl⟩
      exact react_observed (hs.unobserved v hv) ev
    deleted := by
      rintro w ⟨rfl⟩
      have hgone := toSave_object?_eq_none hsave
      have hdel := hs.deleted v hv
      simp only at hgone
      simp [hgone,hdel]
    issued := by
      rintro w ⟨rfl⟩
      have hnext : c.next = s.context.next := toSave_next hsave
      simpa [hnext] using hs.issued v hv
    settled := fun _ => Context.settled_committed c
    trashed := fun _ _ _ => Context.settled_committed c }

/-- A handler that sent nothing changes the screen only. Leaving the screen without a
save happens after the trash tap, when nothing is left to save. -/
theorem guarded_silent {s : App} (hs : Guarded s) {v : MyUIViewController}
    (hv : s.screen = some v) {ev : Event} (hsave : toSave ⟨s.context,v⟩ ev = none) :
    Guarded ⟨s.context,some (react v ev).1,s.editing && decide (ev ≠ .viewWillDisappear)⟩ := by
  have htrash : ev ≠ .trashTapped := by rintro rfl; cases hsave
  have hleft : ev = .viewWillDisappear → v.wasDeleted = true := by
    rintro rfl
    by_contra hw
    simp [toSave,edits,hw] at hsave
  exact {
    stored := hs.stored
    others := by
      intro i a ha
      rcases hs.others i a ha with hvalid | ⟨hup,w,hw,hwi⟩
      · exact Or.inl hvalid
      · obtain rfl : v = w := Option.some.inj (hv.symm.trans hw)
        refine Or.inr ⟨?_,_,rfl,by simpa using hwi⟩
        have hstay : ev ≠ .viewWillDisappear := by
          intro hev
          have hnone := (hs.deleted v hv).mp (hleft hev)
          rw [hwi] at hnone
          cases hnone.symm.trans ha
        simp [hup,hstay]
    unobserved := by
      rintro w ⟨rfl⟩
      exact react_observed (hs.unobserved v hv) ev
    deleted := by
      rintro w ⟨rfl⟩
      simpa [htrash] using hs.deleted v hv
    issued := by
      rintro w ⟨rfl⟩
      simpa using hs.issued v hv
    settled := by
      intro hdown
      by_cases hev : ev = .viewWillDisappear
      · exact hs.trashed v hv (hleft hev)
      · exact hs.settled (by simpa [hev] using hdown)
    trashed := by
      rintro w ⟨rfl⟩ hw
      exact hs.trashed v hv (by simpa [htrash] using hw) }

theorem guarded_step (act : UserAction) (s t : App) (hs : Guarded s) (h : s.step act = .ok t) :
    Guarded t := by
  cases act with
  | segue sender date =>
    simp only [App.step] at h
    split_ifs at h with hopen
    · obtain rfl := Except.ok.inj h
      exact guarded_openScreen hs hopen.1 hopen.2 date
    · obtain rfl := Except.ok.inj h
      exact hs
  | edit ev =>
    cases hv : s.screen with
    | none =>
      simp only [App.step,hv] at h
      obtain rfl := Except.ok.inj h
      exact hs
    | some v =>
      simp only [App.step,hv] at h
      split_ifs at h with hleft
      · obtain rfl := Except.ok.inj h
        exact hs
      · cases hstep : Editing.step ⟨s.context,v⟩ ev with
        | error x => simp [hstep] at h
        | ok u =>
          simp only [hstep,Except.ok.injEq] at h
          subst h
          obtain ⟨hscreen,hctx⟩ := step_eq_ok (hs.unobserved v hv) hstep
          rw [hscreen]
          rcases hctx with ⟨hnone,hsame⟩ | ⟨c,hsave,hc,hcommit⟩
          · rw [hsame]
            exact guarded_silent hs hv hnone
          · rw [hcommit]
            exact guarded_saved hs hv hsave hc _

theorem saveContext_completes_iff {s : App} (hs : Guarded s) :
    (∃ t, s.saveContext = .ok t) ↔ ∀ v, s.screen = some v → HasTitle s.context v := by
  have hok : (∃ t, s.saveContext = .ok t) ↔ s.context.Saveable ToDoEntity.valid := by
    unfold App.saveContext
    by_cases hsave : s.context.Saveable ToDoEntity.valid
    · by_cases hch : s.context.hasChanges <;> simp [hsave,hch,Context.save]
    · simp [hsave,Context.hasChanges_of_not_saveable hsave,Context.save]
  rw [hok,Context.saveable_iff hs.stored]
  constructor
  · intro h v hv
    by_cases hw : v.wasDeleted = true
    · exact Or.inl hw
    · obtain ⟨a,ha⟩ := (hs.not_deleted_iff hv).mp (Bool.eq_false_iff.mpr hw)
      exact Or.inr ⟨a,ha,h _ a ha⟩
  · intro h i a ha
    rcases hs.others i a ha with hvalid | ⟨_,v,hv,rfl⟩
    · exact hvalid
    · rcases h v hv with hw | ⟨b,hb,hbv⟩
      · cases ((hs.deleted v hv).mp hw).symm.trans ha
      · obtain rfl := Option.some.inj (hb.symm.trans ha)
        exact hbv

/-- From a valid store every save of a run and the last save succeed exactly if every
handler that saves finds a title, and so does the end of the run. -/
theorem saves_succeed_iff {c : Context ToDoEntity} (hc : c.Settled)
    (hvalid : ∀ i a, c.stored? i = some a → a.valid = true) (acts : List UserAction) :
    (∃ t, run App.step (App.launch c) acts = .ok t ∧ ∃ u, t.saveContext = .ok u) ↔
      Along App.step Titled (App.launch c) acts ∧
        ∀ t, run App.step (App.launch c) acts = .ok t →
          ∀ v, t.screen = some v → HasTitle t.context v := by
  have hinv {t} (ht : run App.step (App.launch c) acts = .ok t) : Guarded t :=
    run_invariant guarded_step (guarded_launch hc hvalid) ht
  have hrun := run_completes_iff_guarded guarded_step step_completes_iff_titled acts
    (guarded_launch hc hvalid)
  rw [← hrun]
  constructor
  · rintro ⟨t,ht,hsave⟩
    exact ⟨⟨t,ht⟩,(forall_ok_iff ht).mpr ((saveContext_completes_iff (hinv ht)).mp hsave)⟩
  · rintro ⟨⟨t,ht⟩,hlast⟩
    exact ⟨t,ht,(saveContext_completes_iff (hinv ht)).mpr (hlast t ht)⟩

theorem milkStore_valid (i : ObjectID) (a : ToDoEntity) (h : milkStore.stored? i = some a) :
    a.valid = true := by
  have hmem := AList.mem_lookup_iff.mp (Option.mem_def.mpr h)
  simp only [milkStore,Context.ofStore,AList.singleton_entries,List.mem_singleton] at hmem
  cases hmem
  rfl

theorem saves_succeed_iff_milk :
    (∃ t, run App.step (App.launch milkStore)
          [.segue (.cell 0) 0,.edit (.titleFieldEdited 7),.edit .viewWillDisappear] = .ok t ∧
        ∃ u, t.saveContext = .ok u) ↔
      Along App.step Titled (App.launch milkStore)
          [.segue (.cell 0) 0,.edit (.titleFieldEdited 7),.edit .viewWillDisappear] ∧
        ∀ t, run App.step (App.launch milkStore)
            [.segue (.cell 0) 0,.edit (.titleFieldEdited 7),.edit .viewWillDisappear] = .ok t →
          ∀ v, t.screen = some v → HasTitle t.context v :=
  saves_succeed_iff (Context.settled_ofStore _ _ _) milkStore_valid _

/-- A new entity whose date picker ends editing before it has a title fails to be saved,
and so does one the app ends with. -/
theorem untitled_save_fails :
    ¬ (∃ t, run App.step (App.launch milkStore)
          [.segue .barButtonItem 0,.edit .dueDateEdited] = .ok t ∧ ∃ u, t.saveContext = .ok u) ∧
      ¬ ∃ t, run App.step (App.launch milkStore) [.segue .barButtonItem 0] = .ok t ∧
          ∃ u, t.saveContext = .ok u := by
  constructor
  · rintro ⟨t,ht,_⟩
    have hthrow : run App.step (App.launch milkStore)
        [.segue .barButtonItem 0,.edit .dueDateEdited] = .error .unableToSaveEntity := rfl
    cases hthrow.symm.trans ht
  · rintro ⟨t,ht,u,hu⟩
    have habort : (run App.step (App.launch milkStore) [.segue .barButtonItem 0] >>=
        App.saveContext) = .error .abort := rfl
    rw [ht] at habort
    cases habort.symm.trans hu

/-- Whenever the list shows, nothing is pending: each edit screen opens on a settled context. -/
theorem list_settled {c : Context ToDoEntity} (hc : c.Settled)
    (hvalid : ∀ i a, c.stored? i = some a → a.valid = true) {acts : List UserAction} {t : App}
    (ht : run App.step (App.launch c) acts = .ok t) (hlist : t.editing = false) :
    t.context.Settled :=
  (run_invariant guarded_step (guarded_launch hc hvalid) ht).settled hlist

end ToDoManager
end CourseraObjC
