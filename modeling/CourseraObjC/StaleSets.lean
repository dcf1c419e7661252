import CourseraObjC.SaveSession

/-! Saves that only save the children of an object leave their set of changes in the queue.
The answers that come later are then each taken for the answer to an older set. -/
namespace CourseraObjC
namespace SaveSession

variable {ν α : Type} [DecidableEq α] [Add ν] {E : Elements α}

def savesOnlyChildren (s : SaveSession ν α) : ObjectEvent ν α → Bool
  | .saveAsync childrenDirty => savesChildrenOnly s.object childrenDirty
  | _ => false

/-- The queue holds one set for each save of the children alone, then that of the command. -/
structure StaleSets (stale : ℕ) (s : SaveSession ν α) : Prop where
  length : s.object.earlierSets.length = stale+s.command.toList.length
  last : ∀ changes, s.command = some changes → s.object.earlierSets.getLast? = some changes

omit [DecidableEq α] [Add ν] in
theorem StaleSets.kept {n : ℕ} {s t : SaveSession ν α} (hs : StaleSets n s)
    (hsets : t.object.earlierSets = s.object.earlierSets) (hcommand : t.command = s.command) :
    StaleSets n t := by
  refine ⟨?_,fun changes hchanges => ?_⟩
  · rw [hsets,hcommand]
    exact hs.length
  · rw [hsets]
    exact hs.last changes (hcommand ▸ hchanges)

theorem performOperation_earlierSets {o o' : ParseObject ν α} {operation : FieldOperation ν α}
    {key : String} (h : o.performOperation E operation key = .ok o') :
    o'.earlierSets = o.earlierSets := by
  obtain ⟨v,m,_,_,rfl⟩ := ParseObject.performOperation_eq_ok.mp h
  rfl

theorem mergeAfterSave_length {o o' : ParseObject ν α} {result : Option (FieldData ν α)}
    (h : o.mergeAfterSaveWithResult E result = .ok o') :
    o.earlierSets.length = o'.earlierSets.length+1 := by
  obtain ⟨before,rest,hsets,hcases⟩ := ParseObject.mergeAfterSave_cases h
  rcases hcases with ⟨answer,data,_,_,hrebuilt⟩ | ⟨_,rfl,merged,_,rfl⟩ |
    ⟨next,tail,merged,_,rfl,_,rfl⟩
  · obtain ⟨d,_,rfl⟩ := ParseObject.rebuildEstimatedData_eq_ok.mp hrebuilt
    rw [hsets,List.length_cons]
    rfl
  · simp [hsets]
  · simp [hsets]

theorem staleSets_step (e : ObjectEvent ν α) (n : ℕ) (s t : SaveSession ν α)
    (hs : StaleSets n s) (h : s.step E e = .ok t) :
    StaleSets (n+(savesOnlyChildren s e).toNat) t := by
  cases e with
  | performOperation operation key =>
    obtain ⟨object,hobject,rfl⟩ := withObject_eq_ok.mp h
    exact hs.kept (performOperation_earlierSets hobject) rfl
  | removeObjectForKey key =>
    obtain ⟨object,hobject,rfl⟩ := withObject_eq_ok.mp h
    rcases ParseObject.removeObjectForKey_cases hobject with ⟨_,rfl⟩ | ⟨_,hperform⟩
    · exact hs
    · exact hs.kept (performOperation_earlierSets hperform) rfl
  | saveAsync childrenDirty =>
    have hlength := hs.length
    obtain ⟨hnone,⟨hclean,rfl⟩ | ⟨honly,rfl⟩ | ⟨hown,_,rfl⟩⟩ := saveAsync_cases h
    · have honly : savesOnlyChildren t (.saveAsync childrenDirty) = false := by
        simp [savesOnlyChildren,savesChildrenOnly,hclean]
      rw [honly]
      exact hs
    · rw [hnone] at hlength
      refine ⟨?_,fun changes hchanges => absurd (hnone.symm.trans hchanges) (by simp)⟩
      simpa [savesOnlyChildren,honly,ParseObject.startSave,hnone] using hlength
    · rw [hnone] at hlength
      refine ⟨?_,fun changes hchanges => ?_⟩
      · simpa [savesOnlyChildren,hown,ParseObject.startSave] using hlength
      · obtain rfl := Option.some.inj hchanges
        simp [ParseObject.startSave]
  | saveInBatch =>
    obtain ⟨hnone,rfl⟩ := saveInBatch_eq_ok.mp h
    have hlength := hs.length
    rw [hnone] at hlength
    refine ⟨?_,fun changes hchanges => ?_⟩
    · simpa [savesOnlyChildren,ParseObject.startSave] using hlength
    · obtain rfl := Option.some.inj hchanges
      simp [ParseObject.startSave]
  | handleSaveResult result =>
    obtain ⟨changes,object,hcommand,hmerge,rfl⟩ := handleSaveResult_cases h
    have hlength := hs.length
    rw [mergeAfterSave_length hmerge,hcommand] at hlength
    exact ⟨by simpa [savesOnlyChildren] using hlength,by simp⟩
  | mergeAfterFetch result completeData =>
    obtain ⟨object,hobject,rfl⟩ := withObject_eq_ok.mp h
    obtain ⟨merged,hearlier,_,hrebuilt⟩ := ParseObject.mergeAfterFetch_cases hobject
    obtain ⟨d,_,rfl⟩ := ParseObject.rebuildEstimatedData_eq_ok.mp hrebuilt
    exact hs.kept hearlier rfl
  | revert childrenDirty =>
    obtain ⟨object,hobject,rfl⟩ := withObject_eq_ok.mp h
    rcases ParseObject.revert_cases hobject with ⟨_,rfl⟩ | ⟨d,rfl,_⟩
    · exact hs
    · exact hs.kept rfl rfl
  | revertObjectForKey key =>
    obtain ⟨object,hobject,rfl⟩ := withObject_eq_ok.mp h
    rcases ParseObject.revertObjectForKey_cases hobject with ⟨_,rfl⟩ | ⟨_,d,rfl,_⟩
    · exact hs
    · exact hs.kept rfl rfl

theorem staleSets_run {complete : Bool} {es : List (ObjectEvent ν α)} {s : SaveSession ν α}
    (hrun : Runs.run (step E) (initial complete) es = .ok s) :
    StaleSets (Runs.countAlong (step E) savesOnlyChildren (initial complete) es) s := by
  have hinitial : StaleSets 0 (initial complete : SaveSession ν α) := ⟨rfl,by simp [initial]⟩
  have hcount := Runs.run_counts (p := savesOnlyChildren) (I := StaleSets) staleSets_step
    hinitial hrun
  rwa [Nat.zero_add] at hcount

theorem failed_save_unsaved {n : ℕ} {s t : SaveSession ν α} {changes : OperationSet ν α}
    (hs : StaleSets n s) (hcommand : s.command = some changes)
    (h : s.step E (.handleSaveResult none) = .ok t) :
    if n = 0 then s.object.unsavedChanges.mergeOperationSet E changes = .ok t.object.unsavedChanges
    else t.object.unsavedChanges = s.object.unsavedChanges := by
  have hlength := hs.length
  have hlast := hs.last changes hcommand
  obtain ⟨_,object,_,hmerge,rfl⟩ := handleSaveResult_cases h
  obtain ⟨before,rest,hsets,hcases⟩ := ParseObject.mergeAfterSave_cases hmerge
  rw [hsets] at hlast hlength
  rw [hcommand,List.length_cons] at hlength
  rcases hcases with ⟨_,_,hsome,_⟩ | ⟨_,rfl,merged,hm,rfl⟩ | ⟨next,tail,merged,_,rfl,_,rfl⟩
  · exact absurd hsome (by simp)
  · obtain rfl : before = changes := by simpa using hlast
    rw [if_pos (by simpa using hlength.symm)]
    exact hm
  · have hn : n ≠ 0 := by
      simp only [List.length_cons,Option.toList_some,List.length_nil] at hlength
      omega
    rw [if_neg hn]

theorem saved_changes_queued {n : ℕ} {s t : SaveSession ν α} {changes : OperationSet ν α}
    {answer : FieldData ν α} (hs : StaleSets n s) (hcommand : s.command = some changes)
    (h : s.step E (.handleSaveResult (some answer)) = .ok t) :
    if n = 0 then ∃ data, applyOperationSet E changes s.object.serverData = .ok data ∧
      t.object.serverData = answer∪data
    else t.object.earlierSets.getLast? = some changes := by
  have hlength := hs.length
  have hlast := hs.last changes hcommand
  obtain ⟨_,object,_,hmerge,rfl⟩ := handleSaveResult_cases h
  obtain ⟨before,rest,hsets,hcases⟩ := ParseObject.mergeAfterSave_cases hmerge
  rw [hsets] at hlast hlength
  rw [hcommand,List.length_cons] at hlength
  rcases hcases with ⟨answer',data,hanswer,hdata,hrebuilt⟩ | ⟨hfalse,_⟩ | ⟨_,_,_,hfalse,_⟩
  · obtain rfl := Option.some.inj hanswer
    obtain ⟨d,_,rfl⟩ := ParseObject.rebuildEstimatedData_eq_ok.mp hrebuilt
    cases rest with
    | nil =>
      obtain rfl : before = changes := by simpa using hlast
      rw [if_pos (by simpa using hlength.symm)]
      exact ⟨data,hdata,rfl⟩
    | cons next tail =>
      have hn : n ≠ 0 := by
        simp only [List.length_cons,Option.toList_some,List.length_nil] at hlength
        omega
      rw [if_neg hn]
      rw [List.getLast?_cons_cons] at hlast
      exact hlast
  · exact absurd hfalse (by simp)
  · exact absurd hfalse (by simp)

end SaveSession
end CourseraObjC
