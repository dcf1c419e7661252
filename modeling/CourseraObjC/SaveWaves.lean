import CourseraObjC.DirtyChildren
import CourseraObjC.Rounds

/-! The waves in which `_deepSaveAsync:` saves what it has collected: each object once, after
all that it needs to be saved before it, unless the loop runs into its exception. -/
namespace CourseraObjC

open PathSearch

variable {O F : Type}

namespace ObjectGraph

def leafNewPointers (g : ObjectGraph O F) : Leaf O F → List O
  | .object o => if (g.object o).objectId = none then [o] else []
  | .file _ => []
  | .acl _ => []

def newPointers (g : ObjectGraph O F) (value : Value O F) : List O :=
  value.leaves.flatMap g.leafNewPointers

def asksForUser (g : ObjectGraph O F) (o : O) : Bool :=
  (g.object o).isDataAvailableForKey "ACL" && (g.object o).hasUnresolvedUser

/-- What has to be saved before an object; where no user is there to be saved, the object waits
for itself. -/
def needs (g : ObjectGraph O F) (o : O) : List O :=
  g.newPointers (g.object o).dictionaryRepresentation++
    if g.asksForUser o then [g.currentUser.getD o] else []

section Serialized

variable [DecidableEq O] {g : ObjectGraph O F} {saved : List O}

mutual

theorem canBeSerializedAsValue_iff (value : Value O F) :
    g.canBeSerializedAsValue saved value = true ↔ ∀ o∈g.newPointers value,o∈saved := by
  cases value with
  | object o =>
    rw [canBeSerializedAsValue,newPointers,Value.leaves]
    cases hid : (g.object o).objectId with
    | none => simp [leafNewPointers,hid]
    | some objectId => simp [leafNewPointers,hid]
  | file f => simp [canBeSerializedAsValue,newPointers,Value.leaves,leafNewPointers]
  | acl hasUnresolvedUser =>
    simp [canBeSerializedAsValue,newPointers,Value.leaves,leafNewPointers]
  | array values =>
    rw [canBeSerializedAsValue,newPointers,Value.leaves]
    exact allCanBeSerialized_iff values
  | dictionary values =>
    rw [canBeSerializedAsValue,newPointers,Value.leaves]
    exact allCanBeSerialized_iff values
  | other => simp [canBeSerializedAsValue,newPointers,Value.leaves]

theorem allCanBeSerialized_iff (values : List (Value O F)) :
    g.allCanBeSerialized saved values = true ↔
      ∀ o∈(Value.leavesOfAll values).flatMap g.leafNewPointers,o∈saved := by
  cases values with
  | nil => simp [allCanBeSerialized,Value.leavesOfAll]
  | cons value values =>
    rw [allCanBeSerialized,Bool.and_eq_true,canBeSerializedAsValue_iff value,
      allCanBeSerialized_iff values,Value.leavesOfAll,List.flatMap_append]
    simp only [List.mem_append,or_imp,forall_and]
    rfl

end

theorem canBeSerializedAfterSaving_iff {o : O} (ho : o∉saved) :
    g.canBeSerializedAfterSaving saved o = true ↔ ∀ d∈g.needs o,d∈saved := by
  have huser : (!(g.asksForUser o && !(g.currentUser.any fun user => saved.contains user))) = true ↔
      ∀ d∈(if g.asksForUser o then [g.currentUser.getD o] else []),d∈saved := by
    cases hasks : g.asksForUser o with
    | false => simp
    | true =>
      cases g.currentUser with
      | none => simp [ho]
      | some user => simp
  rw [canBeSerializedAfterSaving,Bool.and_eq_true,canBeSerializedAsValue_iff,needs]
  rw [show ((g.object o).isDataAvailableForKey "ACL" && (g.object o).hasUnresolvedUser) =
    g.asksForUser o from rfl,huser]
  simp only [List.mem_append,or_imp,forall_and]

end Serialized

section Waves

variable [DecidableEq O] {g : ObjectGraph O F} {n : ℕ} {remaining finished done : List O}

/-- A wave is saved as one, or a lazy user goes before the others. -/
theorem wave_cases (g : ObjectGraph O F) (current : List O) :
    g.wave current = [.objects current] ∨ ∃ user∈current,
      (current.filter (fun o => o ≠ user) = [] ∧ g.wave current = [.lazyUser user]) ∨
      (current.filter (fun o => o ≠ user) ≠ [] ∧
        g.wave current = [.lazyUser user,.objects (current.filter fun o => o ≠ user)]) := by
  cases huser : g.currentUser with
  | none => exact Or.inl (by simp only [wave,huser])
  | some user =>
    by_cases hlazy : g.isLazy = true ∧ user∈current
    · refine Or.inr ⟨user,hlazy.2,?_⟩
      by_cases hrest : current.filter (fun o => o ≠ user) = []
      · exact Or.inl ⟨hrest,by simp only [wave,huser,if_pos hlazy,if_pos hrest]⟩
      · exact Or.inr ⟨hrest,by simp only [wave,huser,if_pos hlazy,if_neg hrest]⟩
    · exact Or.inl (by simp only [wave,huser,if_neg hlazy])

theorem mem_saved_wave {current : List O} {o : O} :
    o∈(g.wave current).flatMap SaveStep.saved ↔ o∈current := by
  rcases wave_cases g current with heq | ⟨user,huser,⟨hrest,heq⟩ | ⟨_,heq⟩⟩
  · rw [heq]
    simp [SaveStep.saved]
  · have hall : ∀ o∈current,o = user := by simpa using hrest
    rw [heq]
    simp only [List.flatMap_cons,List.flatMap_nil,SaveStep.saved,List.append_nil,
      List.mem_singleton]
    exact ⟨fun ho => ho ▸ huser,hall o⟩
  · rw [heq]
    simp only [List.flatMap_cons,List.flatMap_nil,SaveStep.saved,List.append_nil,
      List.singleton_append,List.mem_cons,List.mem_filter,decide_eq_true_eq]
    constructor
    · rintro (rfl | ho)
      · exact huser
      · exact ho.1
    · intro ho
      exact (Decidable.em (o = user)).imp_right fun hne => ⟨ho,hne⟩

/-- The loop is that of the rounds, with a lazy user saved before the others of a round. -/
theorem waves_eq (hn : remaining.length ≤ n) (hnot : ∀ o∈remaining,o∉finished)
    (hsame : ∀ o,o∈finished ↔ o∈done) :
    g.waves n remaining finished =
      match Rounds.rounds g.needs n remaining done with
      | none => .error (.raised relationToCycle)
      | some rs => .ok (rs.flatMap g.wave) := by
  induction n generalizing remaining finished done with
  | zero =>
    cases remaining with
    | nil => rfl
    | cons o remaining => simp at hn
  | succ n ih =>
    cases remaining with
    | nil => rfl
    | cons o remaining =>
      have hready : ∀ x∈o::remaining,
          g.canBeSerializedAfterSaving finished x = Rounds.ready g.needs done x := by
        intro x hx
        rw [Bool.eq_iff_iff,canBeSerializedAfterSaving_iff (hnot x hx),Rounds.ready_iff]
        simp only [hsame]
      have hcurrent := List.filter_congr hready
      have hnext : ((o::remaining).filter fun x => !g.canBeSerializedAfterSaving finished x) =
          (o::remaining).filter fun x => !Rounds.ready g.needs done x :=
        List.filter_congr fun x hx => by rw [hready x hx]
      rw [waves,Rounds.rounds,hcurrent,hnext]
      by_cases hempty : (o::remaining).filter (Rounds.ready g.needs done) = []
      · rw [if_pos hempty,if_pos hempty]
      · rw [if_neg hempty,if_neg hempty]
        have hlength : ((o::remaining).filter fun x => !Rounds.ready g.needs done x).length ≤ n := by
          have hsum := List.length_eq_length_filter_add (l:=o::remaining) (Rounds.ready g.needs done)
          have hpos := List.length_pos_iff.mpr hempty
          omega
        generalize hcur : (o::remaining).filter (Rounds.ready g.needs done) = current at *
        have hnot' : ∀ x∈(o::remaining).filter fun x => !Rounds.ready g.needs done x,
            x∉finished++(g.wave current).flatMap SaveStep.saved := by
          intro x hx hin
          obtain ⟨hx,hopen⟩ := List.mem_filter.mp hx
          rcases List.mem_append.mp hin with hin | hin
          · exact hnot x hx hin
          · rw [mem_saved_wave,← hcur,List.mem_filter] at hin
            rw [hin.2] at hopen
            cases hopen
        have hsame' : ∀ x,x∈finished++(g.wave current).flatMap SaveStep.saved ↔
            x∈done++current := by
          intro x
          simp only [List.mem_append,hsame,mem_saved_wave]
        simp only [ih hlength hnot' hsame']
        cases Rounds.rounds g.needs n _ (done++current) with
        | none => rfl
        | some rest => simp

/-- What a step saves needs only what was saved before the step. -/
def NeedsFirst (needs : O → List O) : List O → List (SaveStep O F) → Prop
  | _,[] => True
  | done,step::steps =>
    (∀ o∈step.saved,∀ d∈needs o,d∈done) ∧ NeedsFirst needs (done++step.saved) steps

omit [DecidableEq O] in
theorem NeedsFirst.mono {needs : O → List O} {done done' : List O} {steps : List (SaveStep O F)}
    (hsub : ∀ o∈done,o∈done') (h : NeedsFirst needs done steps) :
    NeedsFirst needs done' steps := by
  induction steps generalizing done done' with
  | nil => exact trivial
  | cons step steps ih =>
    refine ⟨fun o ho d hd => hsub d (h.1 o ho d hd),ih ?_ h.2⟩
    intro o ho
    rcases List.mem_append.mp ho with ho | ho
    · exact List.mem_append_left _ (hsub o ho)
    · exact List.mem_append_right _ ho

theorem needsFirst_wave {current : List O} {rest : List (SaveStep O F)}
    (hready : ∀ o∈current,∀ d∈g.needs o,d∈done)
    (hrest : NeedsFirst g.needs (done++current) rest) :
    NeedsFirst g.needs done (g.wave current++rest) := by
  rcases wave_cases g current with heq | ⟨user,huser,⟨hnone,heq⟩ | ⟨_,heq⟩⟩
  · rw [heq]
    exact ⟨hready,hrest⟩
  · have hall : ∀ o∈current,o = user := by simpa using hnone
    rw [heq]
    refine ⟨fun o ho => ?_,hrest.mono fun o ho => ?_⟩
    · rw [List.mem_singleton.mp ho]
      exact hready user huser
    · rcases List.mem_append.mp ho with ho | ho
      · exact List.mem_append_left _ ho
      · rw [hall o ho]
        exact List.mem_append_right _ List.mem_cons_self
  · rw [heq]
    refine ⟨fun o ho => ?_,fun o ho d hd => ?_,hrest.mono fun o ho => ?_⟩
    · rw [List.mem_singleton.mp ho]
      exact hready user huser
    · exact List.mem_append_left _ (hready o (List.mem_filter.mp ho).1 d hd)
    · rw [List.mem_append,List.mem_append]
      rcases List.mem_append.mp ho with ho | ho
      · exact Or.inl (Or.inl ho)
      · by_cases hou : o = user
        · exact Or.inl (Or.inr (by simp [hou,SaveStep.saved]))
        · exact Or.inr (List.mem_filter.mpr ⟨ho,by simpa using hou⟩)

theorem needsFirst_rounds {k : ℕ} {rs : List (List O)}
    (h : Rounds.rounds g.needs k remaining done = some rs) :
    NeedsFirst g.needs done (rs.flatMap g.wave) := by
  induction k generalizing remaining done rs with
  | zero =>
    cases remaining with
    | nil =>
      obtain rfl := Option.some.inj h
      exact trivial
    | cons o remaining => cases h
  | succ k ih =>
    cases remaining with
    | nil =>
      obtain rfl := Option.some.inj h
      exact trivial
    | cons o remaining =>
      obtain ⟨_,rest,hrest,rfl⟩ := Rounds.rounds_cons_eq_some h
      rw [List.flatMap_cons]
      refine needsFirst_wave (fun x hx => ?_) (ih hrest)
      exact Rounds.ready_iff.mp (List.mem_filter.mp hx).2

theorem saved_wave_perm {current : List O} (hnodup : current.Nodup) :
    ((g.wave current).flatMap SaveStep.saved).Perm current := by
  have huserFirst : ∀ user∈current,(user::current.filter fun o => o ≠ user).Perm current := by
    intro user huser
    have herase : current.filter (fun o => o ≠ user) = current.erase user := by
      rw [hnodup.erase_eq_filter user]
      refine List.filter_congr fun o _ => ?_
      by_cases ho : o = user
      · simp [ho]
      · simp [ho]
    rw [herase]
    exact (List.perm_cons_erase huser).symm
  rcases wave_cases g current with heq | ⟨user,huser,⟨hnone,heq⟩ | ⟨_,heq⟩⟩
  · rw [heq]
    simp [SaveStep.saved]
  · have hperm := huserFirst user huser
    rw [hnone] at hperm
    rw [heq]
    exact hperm
  · rw [heq]
    simpa [SaveStep.saved] using huserFirst user huser

theorem saved_rounds_perm {rs : List (List O)} (hnodup : rs.flatten.Nodup) :
    ((rs.flatMap g.wave).flatMap SaveStep.saved).Perm rs.flatten := by
  induction rs with
  | nil => exact List.Perm.nil
  | cons current rs ih =>
    rw [List.flatten_cons,List.nodup_append] at hnodup
    rw [List.flatMap_cons,List.flatMap_append,List.flatten_cons]
    exact (saved_wave_perm hnodup.1).append (ih hnodup.2.1)

theorem wave_nonempty {current : List O} (hne : current ≠ []) :
    ∀ step∈g.wave current,step ≠ .objects [] ∧ ∀ f,step ≠ .file f := by
  rcases wave_cases g current with heq | ⟨user,_,⟨_,heq⟩ | ⟨hrest,heq⟩⟩
  · rw [heq]
    simpa using hne
  · rw [heq]
    simp
  · rw [heq]
    simpa using hrest

theorem steps_of_rounds {rs : List (List O)} {k : ℕ}
    (h : Rounds.rounds g.needs k remaining [] = some rs) :
    ∀ step∈rs.flatMap g.wave,step ≠ .objects [] ∧ ∀ f,step ≠ .file f := by
  intro step hstep
  obtain ⟨current,hcurrent,hin⟩ := List.mem_flatMap.mp hstep
  obtain ⟨before,after,hsplit⟩ := List.append_of_mem hcurrent
  exact wave_nonempty (Rounds.rounds_inOrder h hsplit).1 step hin

end Waves

section DeepSave

variable [DecidableEq O] [DecidableEq F] [Fintype O] {g : ObjectGraph O F}
  {objects : Enumeration O} {files : Enumeration F} {node : Value O F}

theorem deepSave_eq_ok {steps : List (SaveStep O F)}
    (h : g.deepSave objects files node = .ok steps) : ∃ c rs,
      g.collectDirtyChildren node = .ok c ∧
      Rounds.rounds g.needs (objects.allObjects c.children).length
        (objects.allObjects c.children) [] = some rs ∧
      steps = (files.allObjects c.files).map .file++rs.flatMap g.wave := by
  rw [deepSave] at h
  cases hcollect : g.collectDirtyChildren node with
  | error halt =>
    rw [hcollect] at h
    cases h
  | ok c =>
    simp only [hcollect] at h
    rw [waves_eq (Nat.le_refl _) (fun o _ => List.not_mem_nil) (fun o => Iff.rfl)] at h
    cases hrounds : Rounds.rounds g.needs (objects.allObjects c.children).length
        (objects.allObjects c.children) [] with
    | none =>
      rw [hrounds] at h
      cases h
    | some rs =>
      rw [hrounds] at h
      exact ⟨c,rs,rfl,hrounds,(Except.ok.inj h).symm⟩

omit [DecidableEq F] [Fintype O] in
/-- The loop raises if and only if one of its objects needs something that is not among them, or
they need each other in a circle. -/
theorem waves_raises_iff (objects : Enumeration O) (s : Finset O) (halt : SearchHalt) :
    g.waves (objects.allObjects s).length (objects.allObjects s) [] = .error halt ↔
      halt = .raised relationToCycle ∧
        ∃ o∈s,(∃ d∈g.needs o,d∉s) ∨ WaitGraph.InCircle g.needs o := by
  have hstuck := Rounds.rounds_eq_none_iff g.needs (Nat.le_refl (objects.allObjects s).length)
  simp only [objects.mem] at hstuck
  rw [waves_eq (Nat.le_refl _) (fun o _ => List.not_mem_nil) (fun o => Iff.rfl),← hstuck]
  cases Rounds.rounds g.needs (objects.allObjects s).length (objects.allObjects s) [] with
  | none => simp [eq_comm]
  | some rs => simp

/-- Once the children are collected, a deep save raises if and only if one of them needs
something that is not dirty, or they need each other in a circle. -/
theorem deepSave_raises_iff {c : Collected O F} (hc : g.collectDirtyChildren node = .ok c)
    (halt : SearchHalt) : g.deepSave objects files node = .error halt ↔
      halt = .raised relationToCycle ∧
        ∃ o∈c.children,(∃ d∈g.needs o,d∉c.children) ∨ WaitGraph.InCircle g.needs o := by
  rw [← waves_raises_iff objects c.children halt,deepSave,hc]
  simp only
  cases g.waves (objects.allObjects c.children).length (objects.allObjects c.children) [] with
  | error halt' => simp
  | ok steps => simp

def unsavedPointer : ObjectGraph (Fin 2) (Fin 1) where
  object
    | 0 => .new [("child",.object 1)]
    | 1 => .withoutData none
  url _ := none
  currentUser := none
  isLazy := false

theorem deepSave_raises_iff_unsaved :
    unsavedPointer.deepSave (.ascending 2) (.ascending 1) (.object 0) =
      .error (.raised relationToCycle) := by
  have hrun : ∃ c,unsavedPointer.collectDirtyChildren (.object 0) = .ok c ∧ c.children = {0} :=
    ⟨_,rfl,rfl⟩
  obtain ⟨c,hc,hchildren⟩ := hrun
  refine (deepSave_raises_iff hc _).mpr ⟨rfl,0,?_,Or.inl ⟨1,by decide,?_⟩⟩
  · rw [hchildren]
    exact Finset.mem_singleton_self 0
  · rw [hchildren]
    decide

theorem children_raise_iff {o : O} {c : Collected O F}
    (hc : g.collectDirtyChildren (.object o) = .ok c) (hfiles : c.files = ∅)
    (halt : SearchHalt) : g.enqueueSaveEventuallyChildren objects files o = .error halt ↔
      halt = .raised relationToCycle ∧ ∃ x∈c.children,x ≠ o ∧
        ((∃ d∈g.needs x,d = o ∨ d∉c.children) ∨ WaitGraph.InCircle g.needs x) := by
  have hnone : files.allObjects c.files = [] := by
    refine List.eq_nil_iff_forall_not_mem.mpr fun f hf => ?_
    rw [files.mem,hfiles] at hf
    exact absurd hf (Finset.notMem_empty f)
  have hmem : (∃ x∈c.children.erase o,(∃ d∈g.needs x,d∉c.children.erase o) ∨
      WaitGraph.InCircle g.needs x) ↔ ∃ x∈c.children,x ≠ o ∧
        ((∃ d∈g.needs x,d = o ∨ d∉c.children) ∨ WaitGraph.InCircle g.needs x) := by
    have hout : ∀ d,d∉c.children.erase o ↔ d = o ∨ d∉c.children := by
      intro d
      rw [Finset.mem_erase,not_and_or,not_not]
    simp only [hout]
    constructor
    · rintro ⟨x,hx,hblocked⟩
      exact ⟨x,Finset.mem_of_mem_erase hx,Finset.ne_of_mem_erase hx,hblocked⟩
    · rintro ⟨x,hx,hne,hblocked⟩
      exact ⟨x,Finset.mem_erase.mpr ⟨hne,hx⟩,hblocked⟩
  rw [enqueueSaveEventuallyChildren,hc]
  simp only [hnone,List.any_nil,Bool.false_eq_true,if_false]
  rw [waves_raises_iff objects (c.children.erase o) halt,hmem]

/-- Saved eventually, a dirty object is no child of its own: the loop raises as well where
another child needs the object. -/
theorem saveEventually_raises_iff {o : O} {c : Collected O F}
    (hc : g.collectDirtyChildren (.object o) = .ok c) (hfiles : c.files = ∅)
    (halt : SearchHalt) : g.enqueueSaveEventuallyWithChildren objects files o = .error halt ↔
      (g.object o).isDirty = true ∧ halt = .raised relationToCycle ∧ ∃ x∈c.children,x ≠ o ∧
        ((∃ d∈g.needs x,d = o ∨ d∉c.children) ∨ WaitGraph.InCircle g.needs x) := by
  rw [enqueueSaveEventuallyWithChildren]
  split_ifs with hdirty
  · rw [children_raise_iff hc hfiles]
    exact (and_iff_right hdirty).symm
  · exact iff_of_false (by simp) fun h => hdirty h.1

def editedPost : ObjectGraph (Fin 2) (Fin 1) where
  object
    | 0 => .new [("post",.object 1)]
    | 1 => .fetched "post" [("lastComment",.object 0)] true
  url _ := none
  currentUser := none
  isLazy := false

theorem saveEventually_raises_iff_comment :
    editedPost.enqueueSaveEventuallyWithChildren (.ascending 2) (.ascending 1) 0 =
      .error (.raised relationToCycle) := by
  have hrun : ∃ c,editedPost.collectDirtyChildren (.object 0) = .ok c ∧ c.children = {0,1} ∧
      c.files = ∅ := ⟨_,rfl,by decide,rfl⟩
  obtain ⟨c,hc,hchildren,hfiles⟩ := hrun
  refine (saveEventually_raises_iff hc hfiles _).mpr
    ⟨rfl,rfl,1,?_,by decide,Or.inl ⟨0,by decide,?_⟩⟩
  · rw [hchildren]
    decide
  · exact Or.inl rfl

theorem deepSave_saved {steps : List (SaveStep O F)}
    (h : g.deepSave objects files node = .ok steps) :
    (steps.flatMap SaveStep.saved).Nodup ∧
    ∀ o,o∈steps.flatMap SaveStep.saved ↔
      (g.object o).isDirty = true ∧ ∃ r∈g.targets node,Reaches g.next r o := by
  obtain ⟨c,rs,hc,hrounds,rfl⟩ := deepSave_eq_ok h
  have hperm := Rounds.rounds_perm hrounds
  have hnodup : rs.flatten.Nodup := hperm.nodup_iff.mpr (objects.nodup c.children)
  have hsaved := saved_rounds_perm (g:=g) hnodup
  have hnone : ((files.allObjects c.files).map SaveStep.file).flatMap SaveStep.saved =
      ([] : List O) := by
    simp [List.flatMap_map,SaveStep.saved]
  rw [List.flatMap_append,hnone,List.nil_append]
  refine ⟨hsaved.nodup_iff.mpr hnodup,fun o => ?_⟩
  rw [hsaved.mem_iff,hperm.mem_iff,objects.mem]
  exact (collected_iff hc).1 o

theorem objects_ne_nil {steps : List (SaveStep O F)} {current : List O}
    (h : g.deepSave objects files node = .ok steps) (hcurrent : .objects current∈steps) :
    current ≠ [] := by
  obtain ⟨c,rs,hc,hrounds,rfl⟩ := deepSave_eq_ok h
  rintro rfl
  rcases List.mem_append.mp hcurrent with hin | hin
  · simp at hin
  · exact (steps_of_rounds hrounds _ hin).1 rfl

/-- A deep save saves each dirty object that can be reached once, after all that it needs, and
the files without an URL that can be reached. -/
theorem deepSave_inOrder {steps : List (SaveStep O F)}
    (h : g.deepSave objects files node = .ok steps) :
    (steps.flatMap SaveStep.saved).Nodup ∧
    (∀ o,o∈steps.flatMap SaveStep.saved ↔
      (g.object o).isDirty = true ∧ ∃ r∈g.targets node,Reaches g.next r o) ∧
    (∀ f,.file f∈steps ↔ f∈g.unsavedFiles node ∨
      ∃ r∈g.targets node,∃ o,Reaches g.next r o ∧ f∈g.filesOf o) ∧
    NeedsFirst g.needs [] steps := by
  obtain ⟨hnodup,hmem⟩ := deepSave_saved h
  refine ⟨hnodup,hmem,?_⟩
  obtain ⟨c,rs,hc,hrounds,rfl⟩ := deepSave_eq_ok h
  constructor
  · intro f
    rw [← (collected_iff hc).2 f,List.mem_append]
    constructor
    · rintro (hin | hin)
      · simpa [files.mem] using hin
      · exact absurd rfl ((steps_of_rounds hrounds _ hin).2 f)
    · intro hin
      exact Or.inl (by simpa [files.mem] using hin)
  · have hfirst := needsFirst_rounds hrounds
    induction files.allObjects c.files with
    | nil => exact hfirst
    | cons f fs ih => exact ⟨fun o ho => absurd ho List.not_mem_nil,ih⟩

/-- A new comment on a post, with a new tag in an array; the post points back to the comment. -/
def commentGraph : ObjectGraph (Fin 3) (Fin 1) where
  object
    | 0 => .new [("post",.object 1),("tags",.array [.object 2])]
    | 1 => .fetched "post" [("lastComment",.object 0)] false
    | 2 => .new []
  url _ := none
  currentUser := none
  isLazy := false

theorem deepSave_inOrder_comment :
    ∃ steps,commentGraph.deepSave (.ascending 3) (.ascending 1) (.object 0) = .ok steps ∧
      steps = [.objects [2],.objects [0]] ∧ NeedsFirst commentGraph.needs [] steps := by
  have hrun : ∃ steps,commentGraph.deepSave (.ascending 3) (.ascending 1) (.object 0) = .ok steps ∧
      steps = [.objects [2],.objects [0]] := ⟨_,rfl,by decide⟩
  obtain ⟨steps,hsteps,heq⟩ := hrun
  exact ⟨steps,hsteps,heq,(deepSave_inOrder hsteps).2.2.2⟩

end DeepSave

end ObjectGraph
end CourseraObjC
