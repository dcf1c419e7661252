import CourseraObjC.SaveSession

/-! Which keys of a `PFObject` may be read. An object that has not been fetched whole answers
for the keys it has heard of; to read another one raises. -/
namespace CourseraObjC
namespace SaveSession

variable {ν α : Type}

/-- The server's data, or an operation that has been queued, have the key. -/
def Known (o : ParseObject ν α) (key : String) : Prop :=
  o.serverData.lookup key ≠ none ∨ ∃ set ∈ o.operationSetQueue, set.lookup key ≠ none

def KnownAvailable (o : ParseObject ν α) : Prop :=
  ∀ key, Known o key → o.isDataAvailableForKey key = true

/-- A revert of one key takes no other value of it away from an incomplete object. -/
def RevertsOnlyChange (s : SaveSession ν α) : ObjectEvent ν α → Prop
  | .revertObjectForKey key =>
    s.object.complete = true ∨ s.object.unsavedChanges.lookup key = none ∨
      (s.object.serverData.lookup key = none ∧
        ∀ set ∈ s.object.earlierSets, set.lookup key = none)
  | _ => True

theorem isDataAvailableForKey_iff {o : ParseObject ν α} {key : String} :
    o.isDataAvailableForKey key = true ↔ o.complete = true ∨ key ∈ o.availableKeys := by
  simp [ParseObject.isDataAvailableForKey]

theorem known_iff {o : ParseObject ν α} {key : String} :
    Known o key ↔ o.serverData.lookup key ≠ none ∨ (∃ set ∈ o.earlierSets, set.lookup key ≠ none) ∨
      o.unsavedChanges.lookup key ≠ none := by
  simp only [Known,ParseObject.operationSetQueue,List.mem_append,List.mem_singleton]
  constructor
  · rintro (h | ⟨set,hset | rfl,hkey⟩)
    · exact Or.inl h
    · exact Or.inr (Or.inl ⟨set,hset,hkey⟩)
    · exact Or.inr (Or.inr hkey)
  · rintro (h | ⟨set,hset,hkey⟩ | hkey)
    · exact Or.inl h
    · exact Or.inr ⟨set,Or.inl hset,hkey⟩
    · exact Or.inr ⟨o.unsavedChanges,Or.inr rfl,hkey⟩

theorem KnownAvailable.mono {o o' : ParseObject ν α} (h : KnownAvailable o)
    (hcomplete : o.complete = true → o'.complete = true)
    (hkeys : ∀ key, Known o' key → key ∈ o'.availableKeys ∨
      (Known o key ∧ (key ∈ o.availableKeys → key ∈ o'.availableKeys))) : KnownAvailable o' := by
  intro key hknown
  rw [isDataAvailableForKey_iff]
  rcases hkeys key hknown with hnew | ⟨hold,hkept⟩
  · exact Or.inr hnew
  · rcases isDataAvailableForKey_iff.mp (h key hold) with hc | hk
    · exact Or.inl (hcomplete hc)
    · exact Or.inr (hkept hk)

theorem knownAvailable_startSave {o : ParseObject ν α} (h : KnownAvailable o) :
    KnownAvailable o.startSave := by
  refine h.mono id fun k hk => Or.inr ⟨?_,id⟩
  rw [known_iff] at hk ⊢
  simp only [ParseObject.startSave,List.mem_append,List.mem_singleton] at hk
  rcases hk with hserver | ⟨set,hset | rfl,hk⟩ | hempty
  · exact Or.inl hserver
  · exact Or.inr (Or.inl ⟨set,hset,hk⟩)
  · exact Or.inr (Or.inr hk)
  · exact absurd (AList.lookup_empty k) hempty

theorem lookup_answered {result data : FieldData ν α} {key : String}
    (h : (result∪data).lookup key ≠ none) : key ∈ result ∨ data.lookup key ≠ none := by
  by_cases hkey : key ∈ result
  · exact Or.inl hkey
  · rw [AList.lookup_union_right hkey] at h
    exact Or.inr h

theorem mem_persistentKeys {keys : Finset String} {sets : List (OperationSet ν α)}
    {key : String} :
    key ∈ sets.foldl (fun keys operationSet => keys∪operationSet.keys.toFinset) keys ↔
      key ∈ keys ∨ ∃ set ∈ sets, set.lookup key ≠ none := by
  induction sets generalizing keys with
  | nil => simp
  | cons set sets ih =>
    have hset : key ∈ set.keys ↔ set.lookup key ≠ none := by
      rw [← Option.isSome_iff_ne_none,AList.lookup_isSome]
      rfl
    rw [List.foldl_cons,ih,Finset.mem_union,List.mem_toFinset,hset]
    simp [or_assoc]

section Steps

variable [DecidableEq α] [Add ν] {E : Elements α}

theorem knownAvailable_performOperation {o o' : ParseObject ν α}
    {operation : FieldOperation ν α} {key : String} (h : KnownAvailable o)
    (hperform : o.performOperation E operation key = .ok o') : KnownAvailable o' := by
  obtain ⟨v,m,_,_,rfl⟩ := ParseObject.performOperation_eq_ok.mp hperform
  refine h.mono id fun k hk => ?_
  by_cases hkey : k = key
  · exact Or.inl (by simp [hkey])
  · refine Or.inr ⟨?_,fun hk' => by simp [hk']⟩
    rw [known_iff] at hk ⊢
    simpa [AList.lookup_insert_ne hkey] using hk

theorem lookup_applied {set : OperationSet ν α} {d r : FieldData ν α}
    (h : applyOperationSet E set d = .ok r) {key : String} (hkey : r.lookup key ≠ none) :
    d.lookup key ≠ none ∨ set.lookup key ≠ none := by
  have hlookup := Dictionary.rewrite_lookup h key
  cases hset : set.lookup key with
  | none =>
    rw [hset] at hlookup
    rw [← Except.ok.inj hlookup] at hkey
    exact Or.inl hkey
  | some p => exact Or.inr (by simp)

theorem lookup_merged {before next merged : OperationSet ν α}
    (h : next.mergeOperationSet E before = .ok merged) {key : String}
    (hkey : merged.lookup key ≠ none) : before.lookup key ≠ none ∨ next.lookup key ≠ none := by
  have hlookup := Dictionary.rewrite_lookup h key
  cases hbefore : before.lookup key with
  | none =>
    rw [hbefore] at hlookup
    rw [← Except.ok.inj hlookup] at hkey
    exact Or.inr hkey
  | some p => exact Or.inl (by simp)

theorem knownAvailable_mergeAfterSave {o o' : ParseObject ν α}
    {result : Option (FieldData ν α)} (h : KnownAvailable o)
    (hmerge : o.mergeAfterSaveWithResult E result = .ok o') : KnownAvailable o' := by
  obtain ⟨before,rest,hsets,hcases⟩ := ParseObject.mergeAfterSave_cases hmerge
  have hbefore : ∀ key, before.lookup key ≠ none → Known o key :=
    fun key hkey => known_iff.mpr (Or.inr (Or.inl ⟨before,by simp [hsets],hkey⟩))
  rcases hcases with ⟨answer,data,rfl,hdata,hrebuilt⟩ | ⟨rfl,rfl,merged,hm,rfl⟩ |
    ⟨next,tail,merged,rfl,rfl,hm,rfl⟩
  · obtain ⟨d,_,rfl⟩ := ParseObject.rebuildEstimatedData_eq_ok.mp hrebuilt
    refine h.mono (by simp [ParseObject.mergeFromServerWithResult]) fun key hkey => ?_
    rw [known_iff] at hkey
    simp only [ParseObject.mergeFromServerWithResult] at hkey ⊢
    have hkept : Known o key → key ∈ o.availableKeys∪answer.keys.toFinset ∨
        (Known o key ∧ (key ∈ o.availableKeys → key ∈ o.availableKeys∪answer.keys.toFinset)) :=
      fun hknown => Or.inr ⟨hknown,fun hk => Finset.mem_union_left _ hk⟩
    rcases hkey with hserver | ⟨set,hset,hkey⟩ | hkey
    · rcases lookup_answered hserver with hanswer | hold
      · exact Or.inl (Finset.mem_union_right _ (List.mem_toFinset.mpr hanswer))
      · rcases lookup_applied hdata hold with hold | hset
        · exact hkept (Or.inl hold)
        · exact hkept (hbefore key hset)
    · exact hkept (known_iff.mpr (Or.inr (Or.inl ⟨set,by simp [hsets,hset],hkey⟩)))
    · exact hkept (known_iff.mpr (Or.inr (Or.inr hkey)))
  · refine h.mono id fun key hkey => Or.inr ⟨?_,id⟩
    rw [known_iff] at hkey
    rcases hkey with hserver | ⟨set,hset,_⟩ | hkey
    · exact Or.inl hserver
    · simp at hset
    · rcases lookup_merged hm hkey with hkey | hkey
      · exact hbefore key hkey
      · exact known_iff.mpr (Or.inr (Or.inr hkey))
  · refine h.mono id fun key hkey => Or.inr ⟨?_,id⟩
    have hnext : next.lookup key ≠ none → Known o key :=
      fun hkey => known_iff.mpr (Or.inr (Or.inl ⟨next,by simp [hsets],hkey⟩))
    rw [known_iff] at hkey
    rcases hkey with hserver | ⟨set,hset,hkey⟩ | hkey
    · exact Or.inl hserver
    · rcases List.mem_cons.mp hset with rfl | htail
      · rcases lookup_merged hm hkey with hkey | hkey
        · exact hbefore key hkey
        · exact hnext hkey
      · exact known_iff.mpr (Or.inr (Or.inl ⟨set,by simp [hsets,htail],hkey⟩))
    · exact known_iff.mpr (Or.inr (Or.inr hkey))

theorem knownAvailable_mergeAfterFetch {o o' : ParseObject ν α} {result : FieldData ν α}
    {completeData : Bool} (h : KnownAvailable o)
    (hfetch : o.mergeAfterFetchWithResult E result completeData = .ok o') :
    KnownAvailable o' := by
  rw [ParseObject.mergeAfterFetchWithResult] at hfetch
  obtain ⟨d,_,rfl⟩ := ParseObject.rebuildEstimatedData_eq_ok.mp hfetch
  cases completeData with
  | true =>
    intro key _
    rw [isDataAvailableForKey_iff]
    exact Or.inl (by simp [ParseObject.removeOldKeysAfterFetch,
      ParseObject.mergeFromServerWithResult])
  | false =>
    refine h.mono (by simp [ParseObject.mergeFromServerWithResult]) fun key hkey => ?_
    rw [known_iff] at hkey
    simp only [ParseObject.mergeFromServerWithResult,Bool.false_eq_true,if_false] at hkey ⊢
    have hkept : Known o key → key ∈ o.availableKeys∪result.keys.toFinset ∨
        (Known o key ∧ (key ∈ o.availableKeys → key ∈ o.availableKeys∪result.keys.toFinset)) :=
      fun hknown => Or.inr ⟨hknown,fun hk => Finset.mem_union_left _ hk⟩
    rcases hkey with hserver | hkey
    · rcases lookup_answered hserver with hanswer | hold
      · exact Or.inl (Finset.mem_union_right _ (List.mem_toFinset.mpr hanswer))
      · exact hkept (Or.inl hold)
    · exact hkept (known_iff.mpr (Or.inr hkey))

theorem knownAvailable_revert {o o' : ParseObject ν α} {childrenDirty : Bool}
    (h : KnownAvailable o) (hrevert : o.revert E childrenDirty = .ok o') :
    KnownAvailable o' := by
  rcases ParseObject.revert_cases hrevert with ⟨_,rfl⟩ | ⟨d,rfl,_⟩
  · exact h
  · refine h.mono id fun key hkey => Or.inr ?_
    rw [known_iff] at hkey
    have hpersistent : key ∈ o.earlierSets.foldl
        (fun keys operationSet => keys∪operationSet.keys.toFinset)
        o.serverData.keys.toFinset := by
      rw [mem_persistentKeys]
      rcases hkey with hserver | hset | hempty
      · refine Or.inl (List.mem_toFinset.mpr ?_)
        rw [← Option.isSome_iff_ne_none,AList.lookup_isSome] at hserver
        exact hserver
      · exact Or.inr hset
      · exact absurd (AList.lookup_empty key) hempty
    refine ⟨?_,fun hk => Finset.mem_inter.mpr ⟨hk,hpersistent⟩⟩
    rcases hkey with hserver | hset | hempty
    · exact Or.inl hserver
    · exact known_iff.mpr (Or.inr (Or.inl hset))
    · exact absurd (AList.lookup_empty key) hempty

theorem knownAvailable_revertObjectForKey {s : SaveSession ν α} {o' : ParseObject ν α}
    {key : String} (h : KnownAvailable s.object)
    (hrevert : s.object.revertObjectForKey E key = .ok o') :
    KnownAvailable o' ↔ RevertsOnlyChange s (.revertObjectForKey key) := by
  rcases ParseObject.revertObjectForKey_cases hrevert with ⟨hnone,rfl⟩ | ⟨hsome,d,rfl,_⟩
  · exact iff_of_true h (Or.inr (Or.inl hnone))
  · constructor
    · intro hafter
      by_cases hcomplete : s.object.complete = true
      · exact Or.inl hcomplete
      · have hunknown : ¬Known ({s.object with
            unsavedChanges := s.object.unsavedChanges.erase key
            estimatedData := d
            availableKeys := s.object.availableKeys.erase key} : ParseObject ν α) key := by
          intro hknown
          rcases isDataAvailableForKey_iff.mp (hafter key hknown) with hc | hk
          · exact hcomplete hc
          · simp at hk
        rw [known_iff] at hunknown
        push Not at hunknown
        exact Or.inr (Or.inr ⟨hunknown.1,hunknown.2.1⟩)
    · rintro (hcomplete | hnone | ⟨hserver,hearlier⟩)
      · exact fun k _ => isDataAvailableForKey_iff.mpr (Or.inl hcomplete)
      · exact absurd hnone hsome
      · refine h.mono id fun k hk => Or.inr ?_
        rw [known_iff] at hk
        by_cases hkey : k = key
        · subst hkey
          rcases hk with hserver' | ⟨set,hset,hset'⟩ | herased
          · exact absurd hserver hserver'
          · exact absurd (hearlier set hset) hset'
          · exact absurd (AList.lookup_erase k s.object.unsavedChanges) herased
        · refine ⟨?_,fun hk' => Finset.mem_erase.mpr ⟨hkey,hk'⟩⟩
          rw [AList.lookup_erase_ne hkey] at hk
          exact known_iff.mpr hk

/-- A step keeps what is known available exactly if it is no revert that takes more than the
unsaved change of an incomplete object's key. -/
theorem knownAvailable_step (e : ObjectEvent ν α) (s t : SaveSession ν α)
    (hs : KnownAvailable s.object) (h : s.step E e = .ok t) :
    KnownAvailable t.object ↔ RevertsOnlyChange s e := by
  cases e with
  | performOperation operation key =>
    obtain ⟨object,hobject,rfl⟩ := withObject_eq_ok.mp h
    exact iff_of_true (knownAvailable_performOperation hs hobject) trivial
  | removeObjectForKey key =>
    obtain ⟨object,hobject,rfl⟩ := withObject_eq_ok.mp h
    rcases ParseObject.removeObjectForKey_cases hobject with ⟨_,rfl⟩ | ⟨_,hperform⟩
    · exact iff_of_true hs trivial
    · exact iff_of_true (knownAvailable_performOperation hs hperform) trivial
  | saveAsync childrenDirty =>
    obtain ⟨_,⟨_,rfl⟩ | ⟨_,rfl⟩ | ⟨_,_,rfl⟩⟩ := saveAsync_cases h
    · exact iff_of_true hs trivial
    · exact iff_of_true (knownAvailable_startSave hs) trivial
    · exact iff_of_true (knownAvailable_startSave hs) trivial
  | saveInBatch =>
    obtain ⟨_,rfl⟩ := saveInBatch_eq_ok.mp h
    exact iff_of_true (knownAvailable_startSave hs) trivial
  | handleSaveResult result =>
    obtain ⟨changes,object,_,hmerge,rfl⟩ := handleSaveResult_cases h
    exact iff_of_true (knownAvailable_mergeAfterSave hs hmerge) trivial
  | mergeAfterFetch result completeData =>
    obtain ⟨object,hobject,rfl⟩ := withObject_eq_ok.mp h
    exact iff_of_true (knownAvailable_mergeAfterFetch hs hobject) trivial
  | revert childrenDirty =>
    obtain ⟨object,hobject,rfl⟩ := withObject_eq_ok.mp h
    exact iff_of_true (knownAvailable_revert hs hobject) trivial
  | revertObjectForKey key =>
    obtain ⟨object,hobject,rfl⟩ := withObject_eq_ok.mp h
    exact knownAvailable_revertObjectForKey hs hobject

/-- Whatever the server's data or a queued operation have may be read in every state of a
run, exactly if no key of an incomplete object was reverted under which they had more than the
unsaved change. -/
theorem known_keys_available_iff (complete : Bool) {es : List (ObjectEvent ν α)}
    {s : SaveSession ν α} (hrun : Runs.run (step E) (initial complete) es = .ok s) :
    Runs.Always (step E) (fun s => KnownAvailable s.object) (initial complete) es ↔
      Runs.Along (step E) RevertsOnlyChange (initial complete) es := by
  have hinitial : KnownAvailable (initial complete : SaveSession ν α).object := by
    intro key hkey
    rw [known_iff] at hkey
    simp [initial,ParseObject.initial] at hkey
  exact Runs.always_iff_along_of_always (I := fun _ => True) (fun _ _ _ _ _ => trivial)
    (fun e s t _ hs h => knownAvailable_step e s t hs h) trivial hinitial hrun

/-- A key of an object that was fetched in part, changed and reverted: it has its old value,
and may not be read. -/
theorem known_keys_available_iff_reverted :
    ¬Runs.Always (step (.unsaved ℕ)) (fun s : SaveSession ℕ ℕ => KnownAvailable s.object)
      (initial false) [.mergeAfterFetch (AList.singleton "score" (.number 1)) false,
        .performOperation (.increment 1) "score",.revertObjectForKey "score"] := by
  rw [known_keys_available_iff false rfl]
  rintro ⟨_,h⟩
  have hrevert := ((h _ rfl).2 _ rfl).1
  rcases hrevert with hcomplete | hunsaved | hserver
  · exact absurd hcomplete (by decide)
  · exact absurd hunsaved (by decide)
  · exact absurd hserver.1 (by decide)

end Steps

end SaveSession
end CourseraObjC
