import CourseraObjC.SaveSession
import CourseraObjC.FieldMerges
import CourseraObjC.MergedEdits

/-! The commands a `PFObject` is saved with, against the edits its user made: as long as every
save sends its own changes, the commands that were answered, the one under way and the unsaved
changes do, key by key, what the edits do one by one. A save that only saves the children
breaks this: it leaves a set in the queue that no answer is for. -/
namespace CourseraObjC
namespace SaveSession

variable {ν α : Type} [DecidableEq α]

abbrev Edit (ν α : Type) := String × FieldOperation ν α

def opsAt (key : String) (edits : List (Edit ν α)) : List (FieldOperation ν α) :=
  edits.filterMap fun e => if e.1 = key then some e.2 else none

def noteEvent (log : EditLog (Edit ν α)) (s : SaveSession ν α) :
    ObjectEvent ν α → EditLog (Edit ν α)
  | .performOperation operation key => log.edit (key,operation)
  | .removeObjectForKey key =>
    if (s.object.estimatedData.lookup key).isSome then log.edit (key,.delete) else log
  | .saveAsync childrenDirty => if s.object.isDirty childrenDirty then log.send else log
  | .saveInBatch => log.send
  | .handleSaveResult result => if result.isSome then log.confirm else log.reject
  | .mergeAfterFetch _ _ => log
  | .revert _ => log.drop fun _ => false
  | .revertObjectForKey key => log.drop fun e => e.1 ≠ key

def noteEdit (edits : List (Edit ν α)) (s : SaveSession ν α) :
    ObjectEvent ν α → List (Edit ν α)
  | .performOperation operation key => edits++[(key,operation)]
  | .removeObjectForKey key =>
    if (s.object.estimatedData.lookup key).isSome then edits++[(key,.delete)] else edits
  | _ => edits

def reverts : ObjectEvent ν α → Bool
  | .revert _ => true
  | .revertObjectForKey _ => true
  | _ => false

def SavesOwnChanges (s : SaveSession ν α) : ObjectEvent ν α → Prop
  | .saveAsync childrenDirty => savesChildrenOnly s.object childrenDirty = false
  | _ => True

instance decidableSavesOwnChanges (s : SaveSession ν α) (e : ObjectEvent ν α) :
    Decidable (SavesOwnChanges s e) :=
  match e with
  | .saveAsync childrenDirty =>
    inferInstanceAs (Decidable (savesChildrenOnly s.object childrenDirty = false))
  | .performOperation _ _ => isTrue trivial
  | .removeObjectForKey _ => isTrue trivial
  | .saveInBatch => isTrue trivial
  | .handleSaveResult _ => isTrue trivial
  | .mergeAfterFetch _ _ => isTrue trivial
  | .revert _ => isTrue trivial
  | .revertObjectForKey _ => isTrue trivial

section Refinement

variable [Add ν] {E : Elements α} {S : OrderlySums ν}

/-- A `Remove` finds a value, and an `Increment` adds numbers of `S` only. -/
def Meets (S : OrderlySums ν) (v : Option (FieldValue ν α)) : FieldOperation ν α → Prop
  | .remove _ => v ≠ none
  | .increment amount => amount ∈ S.carrier ∧ ∀ n, v = some (.number n) → n ∈ S.carrier
  | _ => True

def mergeOperations (E : Elements α) (new old : FieldOperation ν α) :
    Except NSException (FieldOperation ν α) := new.mergeWithPrevious E (some old)

theorem merge_eq_remove {p n : FieldOperation ν α} {objects : List α}
    (hm : n.mergeWithPrevious E (some p) = .ok (.remove objects)) :
    ∃ previous, p = .remove previous := by
  cases p with
  | remove previous => exact ⟨previous,rfl⟩
  | set value =>
    cases n with
    | _ => cases value with
      | _ => simp [FieldOperation.mergeWithPrevious] at hm
  | relation c a r =>
    cases n with
    | relation c' a' r' =>
      rw [FieldOperation.mergeWithPrevious] at hm
      split_ifs at hm
      simp at hm
    | _ => simp [FieldOperation.mergeWithPrevious] at hm
  | _ =>
    cases n with
    | _ => simp [FieldOperation.mergeWithPrevious,FieldOperation.addUniqueWithObjects] at hm

theorem merge_eq_increment {p n : FieldOperation ν α} {sum : ν}
    (hm : n.mergeWithPrevious E (some p) = .ok (.increment sum)) :
    ∃ amount previous, n = .increment amount ∧ p = .increment previous ∧
      sum = amount+previous := by
  cases p with
  | increment previous =>
    cases n with
    | increment amount =>
      have hsum := Except.ok.inj hm
      exact ⟨amount,previous,rfl,rfl,(FieldOperation.increment.inj hsum).symm⟩
    | _ => simp [FieldOperation.mergeWithPrevious] at hm
  | set value =>
    cases n with
    | _ => cases value with
      | _ => simp [FieldOperation.mergeWithPrevious] at hm
  | relation c a r =>
    cases n with
    | relation c' a' r' =>
      rw [FieldOperation.mergeWithPrevious] at hm
      split_ifs at hm
      simp at hm
    | _ => simp [FieldOperation.mergeWithPrevious] at hm
  | _ =>
    cases n with
    | _ => simp [FieldOperation.mergeWithPrevious,FieldOperation.addUniqueWithObjects] at hm

theorem meets_congr {o : FieldOperation ν α} {v v' : Option (FieldValue ν α)}
    (halike : FieldOperation.Alike E v v') (h : Meets S v o) : Meets S v' o := by
  by_cases hv : ∃ objects, v = some (.array objects)
  · obtain ⟨objects,rfl⟩ := hv
    obtain ⟨objects',rfl,_⟩ := FieldOperation.alike_array.mp halike
    cases o with
    | remove removed => exact Option.some_ne_none _
    | increment amount => exact ⟨h.1,by simp⟩
    | _ => trivial
  · obtain rfl := (FieldOperation.alike_eq (fun objects hv' => hv ⟨objects,hv'⟩)).mp halike
    exact h

theorem meets_merge {p n m : FieldOperation ν α} {v w : Option (FieldValue ν α)}
    (hm : n.mergeWithPrevious E (some p) = .ok m) (hp : Meets S v p) (hn : Meets S w n) :
    Meets S v m := by
  cases m with
  | remove objects =>
    obtain ⟨previous,rfl⟩ := merge_eq_remove hm
    exact hp
  | increment sum =>
    obtain ⟨amount,previous,rfl,rfl,rfl⟩ := merge_eq_increment hm
    exact ⟨S.add_mem' hn.1 hp.1,hp.2⟩
  | _ => trivial

omit [DecidableEq α] in
/-- Merging makes no difference to operations that meet what they need. -/
theorem not_mergeDiffers_of_meets [DecidableEq ν] {p n : FieldOperation ν α}
    {v w : Option (FieldValue ν α)} (hp : Meets S v p) (hn : Meets S w n) :
    FieldOperation.mergeDiffers p n v = false := by
  cases p with
  | remove previous =>
    cases v with
    | none => exact absurd rfl hp
    | some value => cases n with
      | _ => rfl
  | increment previous =>
    cases n with
    | increment amount =>
      cases v with
      | none => rfl
      | some value =>
        cases value with
        | number k =>
          have hsum := S.add_assoc hn.1 hp.1 (hp.2 k rfl)
          simp [FieldOperation.mergeDiffers,hsum]
        | _ => rfl
    | _ => rfl
  | _ => rfl

open Classical in
/-- Operations on fields obey the laws of merged edits. -/
theorem fieldLaws : MergedEdits.Laws (FieldOperation.applyToValue E) (mergeOperations E)
    (FieldOperation.DistinctObjects E) (Meets S)
    (FieldOperation.Alike E : Option (FieldValue ν α) → Option (FieldValue ν α) → Prop) where
  refl := FieldOperation.Alike.refl
  symm := FieldOperation.Alike.symm
  trans := FieldOperation.Alike.trans
  meets_congr := meets_congr
  act_congr := FieldOperation.applyToValue_congr
  act_merge := fun hold hm hmeets hv hmeets' hw =>
    (FieldOperation.applyToValue_merge hold hm hv hw).mpr (not_mergeDiffers_of_meets hmeets hmeets')
  meets_merge := meets_merge
  fit_merge := FieldOperation.distinctObjects_merge

/-- A set of operations stands, key by key, for some edits. -/
def SetRepresents (E : Elements α) (S : OrderlySums ν) (set : OperationSet ν α)
    (edits : List (Edit ν α)) : Prop :=
  ∀ key, MergedEdits.Represents (FieldOperation.applyToValue E)
    (FieldOperation.DistinctObjects E) (Meets S) (FieldOperation.Alike E) (set.lookup key)
    (opsAt key edits)

def applySetsAt (E : Elements α) (key : String) (sets : List (OperationSet ν α))
    (v : Option (FieldValue ν α)) : Except NSException (Option (FieldValue ν α)) :=
  MergedEdits.actSlots (FieldOperation.applyToValue E) (sets.map fun set => set.lookup key) v

def applyEditsAt (E : Elements α) (key : String) (edits : List (Edit ν α))
    (v : Option (FieldValue ν α)) : Except NSException (Option (FieldValue ν α)) :=
  MergedEdits.actAll (FieldOperation.applyToValue E) (opsAt key edits) v

def EditsMeetAt (E : Elements α) (S : OrderlySums ν) (key : String) (edits : List (Edit ν α))
    (v : Option (FieldValue ν α)) : Prop :=
  MergedEdits.AllMeet (FieldOperation.applyToValue E) (Meets S) (opsAt key edits) v

/-- Sets that were sent one after the other stand for edits that were made one after the
other. -/
def SetsRepresent (E : Elements α) (S : OrderlySums ν) (sets : List (OperationSet ν α))
    (edits : List (Edit ν α)) : Prop :=
  ∀ key v w, EditsMeetAt E S key edits v → applyEditsAt E key edits v = .ok w →
    ∃ y, applySetsAt E key sets v = .ok y ∧ FieldOperation.Alike E y w

/-- The object and its commands do what the log says. -/
structure Refines (E : Elements α) (S : OrderlySums ν) (log : EditLog (Edit ν α))
    (s : SaveSession ν α) : Prop where
  command : (log.sent = none ∧ s.command = none ∧ s.object.earlierSets = []) ∨
    ∃ edits changes, log.sent = some edits ∧ s.command = some changes ∧
      s.object.earlierSets = [changes] ∧ SetRepresents E S changes edits
  unsent : SetRepresents E S s.object.unsavedChanges log.unsent
  accepted : SetsRepresent E S s.accepted log.confirmed

omit [DecidableEq α] [Add ν] in
theorem opsAt_append (key : String) (edits edits' : List (Edit ν α)) :
    opsAt key (edits++edits') = opsAt key edits++opsAt key edits' := by
  rw [opsAt,List.filterMap_append]
  rfl

theorem setRepresents_empty : SetRepresents E S (∅ : OperationSet ν α) [] := by
  intro key
  rw [AList.lookup_empty]
  exact fieldLaws.represents_nil

theorem mergeSlot_of_mergeOperationSet {before next merged : OperationSet ν α}
    (h : next.mergeOperationSet E before = .ok merged) (key : String) :
    MergedEdits.mergeSlot (mergeOperations E) (next.lookup key) (before.lookup key) =
      .ok (merged.lookup key) := by
  have hlookup := Dictionary.rewrite_lookup h key
  cases hbefore : before.lookup key with
  | none =>
    rw [hbefore] at hlookup
    cases hnext : next.lookup key with
    | none => rw [← hlookup,hnext]; rfl
    | some n => rw [← hlookup,hnext]; rfl
  | some p =>
    rw [hbefore] at hlookup
    cases hnext : next.lookup key with
    | none => rw [← hlookup,hnext]; rfl
    | some n => rw [← hlookup,hnext]; rfl

theorem setRepresents_merged {before next merged : OperationSet ν α}
    {edits edits' : List (Edit ν α)} (hbefore : SetRepresents E S before edits)
    (hnext : SetRepresents E S next edits') (h : next.mergeOperationSet E before = .ok merged) :
    SetRepresents E S merged (edits++edits') := by
  intro key
  rw [opsAt_append]
  exact fieldLaws.represents_append (hbefore key) (hnext key)
    (mergeSlot_of_mergeOperationSet h key)

theorem setRepresents_performed {set : OperationSet ν α} {edits : List (Edit ν α)}
    {operation m : FieldOperation ν α} {key : String} (hset : SetRepresents E S set edits)
    (hop : FieldOperation.DistinctObjects E operation)
    (hm : operation.mergeWithPrevious E (set.lookup key) = .ok m) :
    SetRepresents E S (set.insert key m) (edits++[(key,operation)]) := by
  intro k
  rw [opsAt_append]
  by_cases hk : k = key
  · subst hk
    have hsingle : opsAt k [(k,operation)] = [operation] := by simp [opsAt]
    have hslot : MergedEdits.mergeSlot (mergeOperations E) (some operation) (set.lookup k) =
        .ok (some m) := by
      cases hp : set.lookup k with
      | none =>
        rw [hp] at hm
        rw [Except.ok.inj hm.symm]
        rfl
      | some p =>
        rw [hp] at hm
        rw [MergedEdits.mergeSlot,mergeOperations,hm]
        rfl
    rw [hsingle,AList.lookup_insert]
    exact fieldLaws.represents_append (hset k) (fieldLaws.represents_singleton hop) hslot
  · have hnone : opsAt k [(key,operation)] = [] := by simp [opsAt,Ne.symm hk]
    rw [hnone,List.append_nil,AList.lookup_insert_ne hk]
    exact hset k

theorem setRepresents_erase {set : OperationSet ν α} {edits : List (Edit ν α)}
    (hset : SetRepresents E S set edits) (key : String) :
    SetRepresents E S (set.erase key) (edits.filter fun e => e.1 ≠ key) := by
  intro k
  by_cases hk : k = key
  · subst hk
    have hnone : opsAt k (edits.filter fun e => e.1 ≠ k) = [] := by
      simp [opsAt,List.filterMap_eq_nil_iff]
    rw [hnone,AList.lookup_erase]
    exact fieldLaws.represents_nil
  · have hsame : opsAt k (edits.filter fun e => e.1 ≠ key) = opsAt k edits := by
      rw [opsAt,opsAt,List.filterMap_filter]
      congr 1
      funext e
      by_cases he : e.1 = k
      · simp [he,hk]
      · simp [he]
    rw [hsame,AList.lookup_erase_ne hk]
    exact hset k

theorem setsRepresent_concat {sets : List (OperationSet ν α)} {set : OperationSet ν α}
    {edits edits' : List (Edit ν α)} (hsets : SetsRepresent E S sets edits)
    (hset : SetRepresents E S set edits') : SetsRepresent E S (sets++[set]) (edits++edits') := by
  intro key v w hmeet hw
  rw [EditsMeetAt,opsAt_append] at hmeet
  rw [applyEditsAt,opsAt_append] at hw
  rw [applySetsAt,List.map_append]
  exact fieldLaws.actSlots_concat (hsets key) (hset key) v w hmeet hw

theorem refines_handleSaveResult {log : EditLog (Edit ν α)} {s t : SaveSession ν α}
    {result : Option (FieldData ν α)} (hs : Refines E S log s)
    (h : s.handleSaveResult E result = .ok t) :
    Refines E S (if result.isSome then log.confirm else log.reject) t := by
  obtain ⟨changes,object,hchanges,hmerge,rfl⟩ := handleSaveResult_cases h
  obtain ⟨_,hnone,_⟩ | ⟨edits,changes',hsent,hcommand,hearlier,hrep⟩ := hs.command
  · rw [hnone] at hchanges
    exact absurd hchanges (by simp)
  · obtain rfl : changes' = changes := Option.some.inj (hcommand.symm.trans hchanges)
    obtain ⟨before,rest,hsets,hcases⟩ := ParseObject.mergeAfterSave_cases hmerge
    obtain ⟨rfl,rfl⟩ : changes' = before ∧ [] = rest := by
      simpa using hearlier.symm.trans hsets
    rcases hcases with ⟨answer,data,rfl,_,hrebuilt⟩ | ⟨rfl,_,merged,hm,rfl⟩ |
      ⟨next,tail,merged,_,hfalse,_⟩
    · obtain ⟨d,_,rfl⟩ := ParseObject.rebuildEstimatedData_eq_ok.mp hrebuilt
      refine ⟨Or.inl ⟨rfl,rfl,rfl⟩,hs.unsent,?_⟩
      have hconfirmed : log.confirm.confirmed = log.confirmed++edits := by
        simp [EditLog.confirm,hsent]
      show SetsRepresent E S (s.accepted++[changes']) log.confirm.confirmed
      rw [hconfirmed]
      exact setsRepresent_concat hs.accepted hrep
    · refine ⟨Or.inl ⟨rfl,rfl,rfl⟩,?_,hs.accepted⟩
      have hunsent : log.reject.unsent = edits++log.unsent := by
        simp [EditLog.reject,hsent]
      show SetRepresents E S merged log.reject.unsent
      rw [hunsent]
      exact setRepresents_merged hrep hs.unsent hm
    · exact absurd hfalse (by simp)

theorem refines_sent {log : EditLog (Edit ν α)} {s : SaveSession ν α} (hs : Refines E S log s)
    (hnone : s.command = none) :
    Refines E S log.send
      {s with object := s.object.startSave,command := some s.object.unsavedChanges} := by
  obtain ⟨hsent,_,hearlier⟩ | ⟨edits,changes,_,hcommand,_⟩ := hs.command
  · refine ⟨Or.inr ⟨log.unsent,s.object.unsavedChanges,rfl,rfl,?_,hs.unsent⟩,
      setRepresents_empty,hs.accepted⟩
    simp [ParseObject.startSave,hearlier]
  · rw [hnone] at hcommand
    exact absurd hcommand (by simp)

theorem refines_saveAsync {log : EditLog (Edit ν α)} {s t : SaveSession ν α}
    {childrenDirty : Bool} (hs : Refines E S log s)
    (hown : savesChildrenOnly s.object childrenDirty = false)
    (h : s.saveAsync childrenDirty = .ok t) :
    Refines E S (if s.object.isDirty childrenDirty then log.send else log) t := by
  obtain ⟨hnone,⟨hclean,rfl⟩ | ⟨honly,_⟩ | ⟨_,hdirty,rfl⟩⟩ := saveAsync_cases h
  · rw [hclean]
    exact hs
  · rw [hown] at honly
    exact absurd honly (by simp)
  · rw [hdirty]
    exact refines_sent hs hnone

theorem refines_step {e : ObjectEvent ν α} {log : EditLog (Edit ν α)} {s t : SaveSession ν α}
    (he : DistinctEdit E e ∧ SavesOwnChanges s e) (hs : Refines E S log s)
    (h : s.step E e = .ok t) : Refines E S (noteEvent log s e) t := by
  cases e with
  | performOperation operation key =>
    obtain ⟨object,hobject,rfl⟩ := withObject_eq_ok.mp h
    obtain ⟨v,m,_,hm,rfl⟩ := ParseObject.performOperation_eq_ok.mp hobject
    exact ⟨hs.command,setRepresents_performed hs.unsent he.1 hm,hs.accepted⟩
  | removeObjectForKey key =>
    obtain ⟨object,hobject,rfl⟩ := withObject_eq_ok.mp h
    rcases ParseObject.removeObjectForKey_cases hobject with ⟨hnone,rfl⟩ | ⟨hsome,hperform⟩
    · rw [noteEvent,hnone]
      exact hs
    · rw [noteEvent,if_pos hsome]
      obtain ⟨v,m,_,hm,rfl⟩ := ParseObject.performOperation_eq_ok.mp hperform
      exact ⟨hs.command,setRepresents_performed hs.unsent trivial hm,hs.accepted⟩
  | saveAsync childrenDirty => exact refines_saveAsync hs he.2 h
  | saveInBatch =>
    obtain ⟨hnone,rfl⟩ := saveInBatch_eq_ok.mp h
    exact refines_sent hs hnone
  | handleSaveResult result => exact refines_handleSaveResult hs h
  | mergeAfterFetch result completeData =>
    obtain ⟨object,hobject,rfl⟩ := withObject_eq_ok.mp h
    obtain ⟨merged,hearlier,hunsaved,hrebuilt⟩ := ParseObject.mergeAfterFetch_cases hobject
    obtain ⟨d,_,rfl⟩ := ParseObject.rebuildEstimatedData_eq_ok.mp hrebuilt
    refine ⟨?_,?_,hs.accepted⟩
    · have hcommand := hs.command
      rw [← hearlier] at hcommand
      exact hcommand
    · have hunsent := hs.unsent
      rw [← hunsaved] at hunsent
      exact hunsent
  | revert childrenDirty =>
    obtain ⟨object,hobject,rfl⟩ := withObject_eq_ok.mp h
    have hdropped : (log.drop fun _ => false).unsent = [] := by simp [EditLog.drop]
    rcases ParseObject.revert_cases hobject with ⟨hclean,rfl⟩ | ⟨d,rfl,_⟩
    · refine ⟨hs.command,?_,hs.accepted⟩
      show SetRepresents E S s.object.unsavedChanges (log.drop fun _ => false).unsent
      rw [ParseObject.unsavedChanges_of_clean hclean,hdropped]
      exact setRepresents_empty
    · refine ⟨hs.command,?_,hs.accepted⟩
      show SetRepresents E S ∅ (log.drop fun _ => false).unsent
      rw [hdropped]
      exact setRepresents_empty
  | revertObjectForKey key =>
    obtain ⟨object,hobject,rfl⟩ := withObject_eq_ok.mp h
    rcases ParseObject.revertObjectForKey_cases hobject with ⟨hnone,rfl⟩ | ⟨_,d,rfl,_⟩
    · refine ⟨hs.command,?_,hs.accepted⟩
      have herase := setRepresents_erase hs.unsent key
      have hsame : s.object.unsavedChanges.erase key = s.object.unsavedChanges := by
        apply AList.ext
        exact List.kerase_of_notMem_keys (AList.lookup_eq_none.mp hnone)
      rw [hsame] at herase
      exact herase
    · exact ⟨hs.command,setRepresents_erase hs.unsent key,hs.accepted⟩

theorem refines_initial (complete : Bool) :
    Refines E S {} (initial complete : SaveSession ν α) := by
  refine ⟨Or.inl ⟨rfl,rfl,rfl⟩,setRepresents_empty,?_⟩
  intro key v w _ hw
  obtain rfl := Except.ok.inj hw
  exact ⟨v,rfl,FieldOperation.Alike.refl v⟩

def allSets (s : SaveSession ν α) : List (OperationSet ν α) :=
  s.accepted++s.command.toList++[s.object.unsavedChanges]

theorem setsRepresent_all {log : EditLog (Edit ν α)} {s : SaveSession ν α}
    (hs : Refines E S log s) : SetsRepresent E S s.allSets log.all := by
  obtain ⟨hsent,hcommand,_⟩ | ⟨edits,changes,hsent,hcommand,_,hrep⟩ := hs.command
  · have hsets := setsRepresent_concat hs.accepted hs.unsent
    simpa [allSets,EditLog.all,hsent,hcommand] using hsets
  · have hsets := setsRepresent_concat (setsRepresent_concat hs.accepted hrep) hs.unsent
    simpa [allSets,EditLog.all,hsent,hcommand] using hsets

theorem sent_of_command {log : EditLog (Edit ν α)} {s : SaveSession ν α}
    (hs : Refines E S log s) (hnone : s.command = none) : log.sent = none := by
  obtain ⟨hsent,_⟩ | ⟨_,changes,_,hcommand,_⟩ := hs.command
  · exact hsent
  · rw [hnone] at hcommand
    exact absurd hcommand (by simp)

theorem all_noteEvent {e : ObjectEvent ν α} {log : EditLog (Edit ν α)} {s t : SaveSession ν α}
    (hs : Refines E S log s) (he : reverts e = false) (h : s.step E e = .ok t) :
    (noteEvent log s e).all = noteEdit log.all s e := by
  cases e with
  | performOperation operation key => exact log.all_edit (key,operation)
  | removeObjectForKey key =>
    rw [noteEvent,noteEdit]
    split_ifs
    · exact log.all_edit (key,.delete)
    · rfl
  | saveAsync childrenDirty =>
    show (if _ then log.send else log).all = log.all
    split_ifs
    · exact EditLog.all_send (sent_of_command hs (saveAsync_cases h).1)
    · rfl
  | saveInBatch => exact EditLog.all_send (sent_of_command hs (saveInBatch_eq_ok.mp h).1)
  | handleSaveResult result =>
    show (if _ then log.confirm else log.reject).all = log.all
    split_ifs
    · exact log.all_confirm
    · exact log.all_reject
  | mergeAfterFetch result completeData => rfl
  | revert childrenDirty => exact absurd he (by simp [reverts])
  | revertObjectForKey key => exact absurd he (by simp [reverts])

theorem refines_all_step {e : ObjectEvent ν α} {log : EditLog (Edit ν α)}
    {edits : List (Edit ν α)} {s t : SaveSession ν α}
    (he : (DistinctEdit E e ∧ SavesOwnChanges s e) ∧ reverts e = false)
    (hs : Refines E S log s ∧ log.all = edits) (h : s.step E e = .ok t) :
    Refines E S (noteEvent log s e) t ∧ (noteEvent log s e).all = noteEdit edits s e := by
  obtain ⟨hrefines,rfl⟩ := hs
  exact ⟨refines_step he.1 hrefines h,all_noteEvent hrefines he.2 h⟩

end Refinement

end SaveSession
end CourseraObjC
