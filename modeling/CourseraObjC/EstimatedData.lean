import CourseraObjC.SaveSession
import CourseraObjC.FieldMerges

/-! What the user of a `PFObject` reads is rebuilt from the server data and the queued
operations at the end of a save that went well, and is kept up by hand elsewhere: where an
operation is merged into the unsaved changes, and where the changes of a failed save are
merged into the next ones. -/
namespace CourseraObjC

section Application

variable {ν α : Type} [DecidableEq α] [Add ν] {E : Elements α}

theorem rewriteSlot_congr {slot : Option (FieldOperation ν α)} {v v' w : Option (FieldValue ν α)}
    (h : FieldOperation.Alike E v v')
    (hw : Dictionary.rewriteSlot (FieldOperation.applyToValue E) slot v = .ok w) :
    ∃ w', Dictionary.rewriteSlot (FieldOperation.applyToValue E) slot v' = .ok w' ∧
      FieldOperation.Alike E w w' := by
  cases slot with
  | none =>
    obtain rfl := Except.ok.inj hw
    exact ⟨v',rfl,h⟩
  | some o => exact FieldOperation.applyToValue_congr h hw

theorem applyOperationSet_congr {set : OperationSet ν α} {d d' r : FieldData ν α}
    (h : AgreeingData E d d') (hr : applyOperationSet E set d = .ok r) :
    ∃ r', applyOperationSet E set d' = .ok r' ∧ AgreeingData E r r' := by
  have hslots := Dictionary.rewrite_lookup hr
  have hok : ∃ r', applyOperationSet E set d' = .ok r' := by
    apply Dictionary.rewrite_ok_iff.mpr
    intro key
    obtain ⟨w',hw',_⟩ := rewriteSlot_congr (h key) (hslots key)
    exact ⟨w',hw'⟩
  obtain ⟨r',hr'⟩ := hok
  refine ⟨r',hr',fun key => ?_⟩
  obtain ⟨w',hw',halike⟩ := rewriteSlot_congr (h key) (hslots key)
  have hlookup := Dictionary.rewrite_lookup hr' key
  obtain rfl : w' = r'.lookup key := Except.ok.inj (hw'.symm.trans hlookup)
  exact halike

theorem estimatedData_cons_eq_ok {d r : FieldData ν α} {set : OperationSet ν α}
    {queue : List (OperationSet ν α)} :
    estimatedDataFromServerData E d (set::queue) = .ok r ↔
      ∃ a, applyOperationSet E set d = .ok a ∧
        estimatedDataFromServerData E a queue = .ok r := by
  rw [estimatedDataFromServerData,List.foldlM_cons,Runs.bind_eq_ok]
  rfl

theorem estimatedData_concat_eq_ok {d r : FieldData ν α} {set : OperationSet ν α}
    {queue : List (OperationSet ν α)} :
    estimatedDataFromServerData E d (queue++[set]) = .ok r ↔
      ∃ a, estimatedDataFromServerData E d queue = .ok a ∧ applyOperationSet E set a = .ok r := by
  rw [estimatedDataFromServerData,List.foldlM_append,Runs.bind_eq_ok]
  simp only [List.foldlM_cons,List.foldlM_nil,bind_pure]
  rfl

theorem estimatedData_congr {queue : List (OperationSet ν α)} {d d' r : FieldData ν α}
    (h : AgreeingData E d d') (hr : estimatedDataFromServerData E d queue = .ok r) :
    ∃ r', estimatedDataFromServerData E d' queue = .ok r' ∧ AgreeingData E r r' := by
  induction queue generalizing d d' with
  | nil =>
    obtain rfl := Except.ok.inj hr
    exact ⟨d',rfl,h⟩
  | cons set queue ih =>
    obtain ⟨a,ha,hrest⟩ := estimatedData_cons_eq_ok.mp hr
    obtain ⟨a',ha',hagree⟩ := applyOperationSet_congr h ha
    obtain ⟨r',hr',hagree'⟩ := ih hagree hrest
    exact ⟨r',estimatedData_cons_eq_ok.mpr ⟨a',ha',hr'⟩,hagree'⟩

theorem applyOperationSet_of_slots {set : OperationSet ν α} {d : FieldData ν α}
    {value : String → Option (FieldValue ν α)}
    (h : ∀ key, Dictionary.rewriteSlot (FieldOperation.applyToValue E) (set.lookup key)
      (d.lookup key) = .ok (value key)) :
    ∃ r, applyOperationSet E set d = .ok r ∧ ∀ key, r.lookup key = value key := by
  obtain ⟨r,hr⟩ := Dictionary.rewrite_ok_iff.mpr fun key => ⟨value key,h key⟩
  exact ⟨r,hr,fun key => Except.ok.inj ((Dictionary.rewrite_lookup hr key).symm.trans (h key))⟩

end Application

namespace SaveSession

variable {ν α : Type} [DecidableEq α] [Add ν]

/-- What a failed save and the next one do to the server's data, their sets merge to. -/
def setsMergeAlike [DecidableEq ν] (serverData : FieldData ν α)
    (before next : OperationSet ν α) : Bool :=
  before.keys.all fun key =>
    match before.lookup key, next.lookup key with
    | some previous, some operation =>
      !FieldOperation.mergeDiffers previous operation (serverData.lookup key)
    | _, _ => true

omit [DecidableEq α] in
theorem not_mergeDiffers_of_sets [DecidableEq ν] {serverData : FieldData ν α}
    {before next : OperationSet ν α}
    (h : setsMergeAlike serverData before next = true) {key : String}
    {previous operation : FieldOperation ν α} (hp : before.lookup key = some previous)
    (hn : next.lookup key = some operation) :
    FieldOperation.mergeDiffers previous operation (serverData.lookup key) = false := by
  have hkey : key ∈ before.keys := AList.lookup_isSome.mp (by simp [hp])
  have hall := List.all_eq_true.mp h key hkey
  simpa [hp,hn] using hall

/-- No set of operations adds two instances of one saved object as different. -/
def DistinctSets (E : Elements α) (queue : List (OperationSet ν α)) : Prop :=
  ∀ set ∈ queue, ∀ key, ∀ p ∈ set.lookup key, FieldOperation.DistinctObjects E p

omit [Add ν] in
theorem distinctSets_startSave {E : Elements α} {o : ParseObject ν α}
    (h : DistinctSets E o.operationSetQueue) :
    DistinctSets E o.startSave.operationSetQueue := by
  intro set hset key p hp
  rcases List.mem_append.mp hset with hold | hnew
  · exact h set hold key p hp
  · obtain rfl := List.mem_singleton.mp hnew
    simp [ParseObject.startSave] at hp

section Shown

variable {E : Elements α}

/-- The user reads what the server data become under the operations that are queued. -/
def Shown (E : Elements α) (o : ParseObject ν α) : Prop :=
  ∃ d, estimatedDataFromServerData E o.serverData o.operationSetQueue = .ok d ∧
    AgreeingData E d o.estimatedData

/-- What an operation does to its key, the operation that it is merged into does as well. -/
def mergesAlike [DecidableEq ν] (E : Elements α) (o : ParseObject ν α) (operation : FieldOperation ν α)
    (key : String) : Bool :=
  match estimatedDataFromServerData E o.serverData o.earlierSets, o.unsavedChanges.lookup key with
  | .ok base, some previous => !FieldOperation.mergeDiffers previous operation (base.lookup key)
  | _, _ => true

theorem shown_rebuilt {o o' : ParseObject ν α} (h : o.rebuildEstimatedData E = .ok o') :
    Shown E o' := by
  obtain ⟨d,hd,hok⟩ := Runs.bind_eq_ok.mp h
  obtain rfl := Except.ok.inj hok
  exact ⟨d,hd,AgreeingData.refl d⟩

theorem rewriteSlot_merged [DecidableEq ν] {p : Option (FieldOperation ν α)}
    {operation m : FieldOperation ν α}
    {base v w x : Option (FieldValue ν α)}
    (hp : ∀ q ∈ p, FieldOperation.DistinctObjects E q)
    (hm : operation.mergeWithPrevious E p = .ok m)
    (hapart : ∀ q ∈ p, FieldOperation.mergeDiffers q operation base = false)
    (hv : Dictionary.rewriteSlot (FieldOperation.applyToValue E) p base = .ok v)
    (halike : FieldOperation.Alike E v w) (hx : operation.applyToValue E w = .ok x) :
    ∃ y, m.applyToValue E base = .ok y ∧ FieldOperation.Alike E y x := by
  obtain ⟨x',hx',hlike⟩ := FieldOperation.applyToValue_congr halike.symm hx
  cases p with
  | none =>
    obtain rfl := Except.ok.inj hm
    obtain rfl := Except.ok.inj hv
    exact ⟨x',hx',hlike.symm⟩
  | some q =>
    obtain ⟨y,hy,hyx⟩ := (FieldOperation.applyToValue_merge (hp q rfl) hm hv hx').mpr
      (hapart q rfl)
    exact ⟨y,hy,hyx.trans hlike.symm⟩

theorem shown_performOperation [DecidableEq ν] {o o' : ParseObject ν α} {operation : FieldOperation ν α}
    {key : String} (hdistinct : DistinctSets E o.operationSetQueue)
    (hapart : mergesAlike E o operation key = true) (hshown : Shown E o)
    (h : o.performOperation E operation key = .ok o') : Shown E o' := by
  obtain ⟨x,m,hx,hm,rfl⟩ := ParseObject.performOperation_eq_ok.mp h
  obtain ⟨d,hd,hagree⟩ := hshown
  obtain ⟨base,hbase,hlast⟩ := estimatedData_concat_eq_ok.mp hd
  have hslots := Dictionary.rewrite_lookup hlast
  have hp : ∀ q ∈ o.unsavedChanges.lookup key, FieldOperation.DistinctObjects E q :=
    fun q hq => hdistinct o.unsavedChanges (by simp [ParseObject.operationSetQueue]) key q hq
  have hmeet : ∀ q ∈ o.unsavedChanges.lookup key,
      FieldOperation.mergeDiffers q operation (base.lookup key) = false := by
    intro q hq
    rw [Option.mem_def] at hq
    simpa [mergesAlike,hbase,hq] using hapart
  obtain ⟨y,hy,hyx⟩ := rewriteSlot_merged hp hm hmeet (hslots key) (hagree key) hx
  have hnew : ∀ k, Dictionary.rewriteSlot (FieldOperation.applyToValue E)
      ((o.unsavedChanges.insert key m).lookup k) (base.lookup k) =
        .ok (if k = key then y else d.lookup k) := by
    intro k
    by_cases hk : k = key
    · subst hk
      rw [AList.lookup_insert,if_pos rfl]
      exact hy
    · rw [AList.lookup_insert_ne hk,if_neg hk]
      exact hslots k
  obtain ⟨r,hr,hlookup⟩ := applyOperationSet_of_slots hnew
  refine ⟨r,estimatedData_concat_eq_ok.mpr ⟨base,hbase,hr⟩,fun k => ?_⟩
  rw [hlookup,Dictionary.lookup_put]
  split_ifs
  · exact hyx
  · exact hagree k

theorem shown_removeObjectForKey [DecidableEq ν] {o o' : ParseObject ν α} {key : String}
    (hdistinct : DistinctSets E o.operationSetQueue) (hshown : Shown E o)
    (h : o.removeObjectForKey E key = .ok o') : Shown E o' := by
  rcases ParseObject.removeObjectForKey_cases h with ⟨_,rfl⟩ | ⟨_,hperform⟩
  · exact hshown
  · refine shown_performOperation hdistinct ?_ hshown hperform
    rw [mergesAlike]
    split
    · next base previous _ _ => cases previous with | _ => rfl
    · rfl

theorem shown_startSave {o : ParseObject ν α} (hshown : Shown E o) : Shown E o.startSave := by
  obtain ⟨d,hd,hagree⟩ := hshown
  refine ⟨d,?_,hagree⟩
  have hqueue : o.startSave.operationSetQueue = o.operationSetQueue++[∅] := by
    simp [ParseObject.operationSetQueue,ParseObject.startSave]
  rw [hqueue]
  exact estimatedData_concat_eq_ok.mpr ⟨d,hd,Dictionary.rewrite_empty d⟩

/-- Two sets that are applied one after the other, and the set they are merged into. -/
theorem applyOperationSet_merged [DecidableEq ν] {before next merged : OperationSet ν α}
    {serverData a d : FieldData ν α}
    (hdistinct : ∀ key, ∀ p ∈ before.lookup key, FieldOperation.DistinctObjects E p)
    (hapart : setsMergeAlike serverData before next = true)
    (ha : applyOperationSet E before serverData = .ok a)
    (hd : applyOperationSet E next a = .ok d)
    (hm : next.mergeOperationSet E before = .ok merged) :
    ∃ r, applyOperationSet E merged serverData = .ok r ∧ AgreeingData E r d := by
  have hslots : ∀ key, ∃ y, Dictionary.rewriteSlot (FieldOperation.applyToValue E)
      (merged.lookup key) (serverData.lookup key) = .ok y ∧
        FieldOperation.Alike E y (d.lookup key) := by
    intro key
    have hbefore := Dictionary.rewrite_lookup ha key
    have hnext := Dictionary.rewrite_lookup hd key
    have hmerged := Dictionary.rewrite_lookup hm key
    cases hp : before.lookup key with
    | none =>
      rw [hp] at hbefore hmerged
      rw [← Except.ok.inj hmerged,Except.ok.inj hbefore]
      exact ⟨_,hnext,FieldOperation.Alike.refl _⟩
    | some previous =>
      rw [hp] at hbefore hmerged
      cases hn : next.lookup key with
      | none =>
        rw [hn] at hnext hmerged
        rw [← Except.ok.inj hmerged,← Except.ok.inj hnext]
        exact ⟨_,hbefore,FieldOperation.Alike.refl _⟩
      | some operation =>
        rw [hn] at hnext hmerged
        obtain ⟨m,hmm,hsome⟩ := Runs.bind_eq_ok.mp hmerged
        rw [← Except.ok.inj hsome]
        exact (FieldOperation.applyToValue_merge (hdistinct key previous hp) hmm hbefore hnext).mpr
          (not_mergeDiffers_of_sets hapart hp hn)
  choose y hy halike using hslots
  obtain ⟨r,hr,hlookup⟩ := applyOperationSet_of_slots hy
  refine ⟨r,hr,fun key => ?_⟩
  rw [hlookup]
  exact halike key

/-- The first two sets of the queue, where an answer finds two. -/
def queueMergesAlike [DecidableEq ν] (o : ParseObject ν α) : Bool :=
  match o.operationSetQueue with
  | before::next::_ => setsMergeAlike o.serverData before next
  | _ => true

theorem shown_mergeAfterSave [DecidableEq ν] {o o' : ParseObject ν α} {result : Option (FieldData ν α)}
    (hdistinct : DistinctSets E o.operationSetQueue)
    (hapart : result = none → queueMergesAlike o = true) (hshown : Shown E o)
    (h : o.mergeAfterSaveWithResult E result = .ok o') : Shown E o' := by
  obtain ⟨before,rest,hsets,hcases⟩ := ParseObject.mergeAfterSave_cases h
  have hbefore : ∀ key, ∀ p ∈ before.lookup key, FieldOperation.DistinctObjects E p :=
    hdistinct before (by simp [ParseObject.operationSetQueue,hsets])
  obtain ⟨d,hd,hagree⟩ := hshown
  simp only [ParseObject.operationSetQueue,hsets,List.cons_append] at hd
  obtain ⟨a,ha,hrest⟩ := estimatedData_cons_eq_ok.mp hd
  rcases hcases with ⟨answer,data,_,_,hrebuilt⟩ | ⟨rfl,rfl,merged,hm,rfl⟩ |
    ⟨next,tail,merged,rfl,rfl,hm,rfl⟩
  · exact shown_rebuilt hrebuilt
  · have hqueue := hapart rfl
    rw [queueMergesAlike,ParseObject.operationSetQueue,hsets] at hqueue
    obtain ⟨b,hb,hnil⟩ := estimatedData_cons_eq_ok.mp hrest
    obtain rfl := Except.ok.inj hnil
    obtain ⟨r,hr,hrb⟩ := applyOperationSet_merged hbefore hqueue ha hb hm
    exact ⟨r,estimatedData_cons_eq_ok.mpr ⟨r,hr,rfl⟩,hrb.trans hagree⟩
  · have hqueue := hapart rfl
    rw [queueMergesAlike,ParseObject.operationSetQueue,hsets] at hqueue
    obtain ⟨b,hb,hlast⟩ := estimatedData_cons_eq_ok.mp hrest
    obtain ⟨r,hr,hrb⟩ := applyOperationSet_merged hbefore hqueue ha hb hm
    obtain ⟨x,hx,hxd⟩ := estimatedData_congr hrb.symm hlast
    refine ⟨x,?_,hxd.symm.trans hagree⟩
    exact estimatedData_cons_eq_ok.mpr ⟨r,hr,hx⟩

theorem shown_revert {o o' : ParseObject ν α} {childrenDirty : Bool} (hshown : Shown E o)
    (h : o.revert E childrenDirty = .ok o') : Shown E o' := by
  rcases ParseObject.revert_cases h with ⟨_,rfl⟩ | ⟨d,rfl,hd⟩
  · exact hshown
  · exact ⟨d,hd,AgreeingData.refl d⟩

theorem shown_revertObjectForKey {o o' : ParseObject ν α} {key : String} (hshown : Shown E o)
    (h : o.revertObjectForKey E key = .ok o') : Shown E o' := by
  rcases ParseObject.revertObjectForKey_cases h with ⟨_,rfl⟩ | ⟨_,d,rfl,hd⟩
  · exact hshown
  · exact ⟨d,hd,AgreeingData.refl d⟩

theorem distinctSets_performOperation {o o' : ParseObject ν α} {operation : FieldOperation ν α}
    {key : String} (hdistinct : DistinctSets E o.operationSetQueue)
    (hop : FieldOperation.DistinctObjects E operation)
    (h : o.performOperation E operation key = .ok o') : DistinctSets E o'.operationSetQueue := by
  obtain ⟨x,m,hx,hm,rfl⟩ := ParseObject.performOperation_eq_ok.mp h
  intro set hset k p hp
  rcases List.mem_append.mp hset with hearlier | hlast
  · exact hdistinct set (List.mem_append_left _ hearlier) k p hp
  · rw [List.mem_singleton] at hlast
    subst hlast
    have hunsaved := hdistinct o.unsavedChanges (by simp [ParseObject.operationSetQueue])
    by_cases hk : k = key
    · subst hk
      rw [AList.lookup_insert,Option.mem_some] at hp
      subst hp
      cases hprev : o.unsavedChanges.lookup k with
      | none =>
        rw [hprev] at hm
        obtain rfl := Except.ok.inj hm
        exact hop
      | some previous =>
        rw [hprev] at hm
        exact FieldOperation.distinctObjects_merge (hunsaved k previous hprev) hm
    · rw [AList.lookup_insert_ne hk] at hp
      exact hunsaved k p hp

theorem distinct_merged {before next merged : OperationSet ν α}
    (hbefore : ∀ key, ∀ p ∈ before.lookup key, FieldOperation.DistinctObjects E p)
    (hnext : ∀ key, ∀ p ∈ next.lookup key, FieldOperation.DistinctObjects E p)
    (hm : next.mergeOperationSet E before = .ok merged) :
    ∀ key, ∀ p ∈ merged.lookup key, FieldOperation.DistinctObjects E p := by
  intro key p hp
  have hmerged := Dictionary.rewrite_lookup hm key
  cases hprev : before.lookup key with
  | none =>
    rw [hprev] at hmerged
    rw [← Except.ok.inj hmerged] at hp
    exact hnext key p hp
  | some previous =>
    rw [hprev] at hmerged
    cases hn : next.lookup key with
    | none =>
      rw [hn] at hmerged
      rw [← Except.ok.inj hmerged,Option.mem_some] at hp
      exact hp ▸ hbefore key previous hprev
    | some operation =>
      rw [hn] at hmerged
      obtain ⟨m,hmm,hsome⟩ := Runs.bind_eq_ok.mp hmerged
      rw [← Except.ok.inj hsome,Option.mem_some] at hp
      exact hp ▸ FieldOperation.distinctObjects_merge (hbefore key previous hprev) hmm

theorem distinctSets_mergeAfterSave {o o' : ParseObject ν α}
    {result : Option (FieldData ν α)} (hdistinct : DistinctSets E o.operationSetQueue)
    (h : o.mergeAfterSaveWithResult E result = .ok o') : DistinctSets E o'.operationSetQueue := by
  obtain ⟨before,rest,hsets,hcases⟩ := ParseObject.mergeAfterSave_cases h
  have hqueue : o.operationSetQueue = before::(rest++[o.unsavedChanges]) := by
    simp [ParseObject.operationSetQueue,hsets]
  rw [hqueue] at hdistinct
  have hbefore := hdistinct before (by simp)
  have hunsaved := hdistinct o.unsavedChanges (by simp)
  rcases hcases with ⟨answer,data,_,_,hrebuilt⟩ | ⟨rfl,rfl,merged,hm,rfl⟩ |
    ⟨next,tail,merged,rfl,rfl,hm,rfl⟩
  · rw [ParseObject.rebuilt_queue hrebuilt]
    exact fun set hset => hdistinct set (List.mem_cons_of_mem _ hset)
  · intro set hset
    obtain rfl := List.mem_singleton.mp hset
    exact distinct_merged hbefore hunsaved hm
  · have htail : DistinctSets E (tail++[o.unsavedChanges]) :=
      fun set hset => hdistinct set (List.mem_cons_of_mem _ (List.mem_cons_of_mem _ hset))
    intro set hset
    rcases List.mem_cons.mp hset with rfl | hrest
    · exact distinct_merged hbefore (hdistinct next (by simp)) hm
    · exact htail set hrest

theorem distinctSets_revert {o o' : ParseObject ν α} {childrenDirty : Bool}
    (hdistinct : DistinctSets E o.operationSetQueue)
    (h : o.revert E childrenDirty = .ok o') : DistinctSets E o'.operationSetQueue := by
  rcases ParseObject.revert_cases h with ⟨_,rfl⟩ | ⟨d,rfl,_⟩
  · exact hdistinct
  · intro set hset key p hp
    rcases List.mem_append.mp hset with hearlier | hlast
    · exact hdistinct set (List.mem_append_left _ hearlier) key p hp
    · obtain rfl := List.mem_singleton.mp hlast
      simp at hp

theorem distinctSets_revertObjectForKey {o o' : ParseObject ν α} {key : String}
    (hdistinct : DistinctSets E o.operationSetQueue)
    (h : o.revertObjectForKey E key = .ok o') : DistinctSets E o'.operationSetQueue := by
  rcases ParseObject.revertObjectForKey_cases h with ⟨_,rfl⟩ | ⟨_,d,rfl,_⟩
  · exact hdistinct
  · intro set hset k p hp
    rcases List.mem_append.mp hset with hearlier | hlast
    · exact hdistinct set (List.mem_append_left _ hearlier) k p hp
    · obtain rfl := List.mem_singleton.mp hlast
      have hunsaved := hdistinct o.unsavedChanges (by simp [ParseObject.operationSetQueue])
      by_cases hk : k = key
      · subst hk
        simp at hp
      · rw [AList.lookup_erase_ne hk] at hp
        exact hunsaved k p hp

/-- Nothing is merged that does something else as one operation than as two. -/
def MergesAlike [DecidableEq ν] (E : Elements α) (s : SaveSession ν α) : ObjectEvent ν α → Prop
  | .performOperation operation key => mergesAlike E s.object operation key = true
  | .handleSaveResult none => queueMergesAlike s.object = true
  | _ => True

instance decidableMergesAlike [DecidableEq ν] (s : SaveSession ν α) (e : ObjectEvent ν α) :
    Decidable (MergesAlike E s e) :=
  match e with
  | .performOperation operation key =>
    inferInstanceAs (Decidable (mergesAlike E s.object operation key = true))
  | .handleSaveResult none => inferInstanceAs (Decidable (queueMergesAlike s.object = true))
  | .handleSaveResult (some _) => isTrue trivial
  | .removeObjectForKey _ => isTrue trivial
  | .saveAsync _ => isTrue trivial
  | .saveInBatch => isTrue trivial
  | .mergeAfterFetch _ _ => isTrue trivial
  | .revert _ => isTrue trivial
  | .revertObjectForKey _ => isTrue trivial

def ShownInvariant (E : Elements α) (s : SaveSession ν α) : Prop :=
  DistinctSets E s.object.operationSetQueue ∧ Shown E s.object

theorem shownInvariant_step [DecidableEq ν] {e : ObjectEvent ν α} {s t : SaveSession ν α}
    (he : DistinctEdit E e ∧ MergesAlike E s e) (hs : ShownInvariant E s)
    (h : s.step E e = .ok t) : ShownInvariant E t := by
  obtain ⟨hdistinct,hshown⟩ := hs
  cases e with
  | performOperation operation key =>
    obtain ⟨object,hobject,rfl⟩ := withObject_eq_ok.mp h
    exact ⟨distinctSets_performOperation hdistinct he.1 hobject,
      shown_performOperation hdistinct he.2 hshown hobject⟩
  | removeObjectForKey key =>
    obtain ⟨object,hobject,rfl⟩ := withObject_eq_ok.mp h
    refine ⟨?_,shown_removeObjectForKey hdistinct hshown hobject⟩
    have hdelete : FieldOperation.DistinctObjects E (.delete : FieldOperation ν α) := trivial
    rcases ParseObject.removeObjectForKey_cases hobject with ⟨_,rfl⟩ | ⟨_,hperform⟩
    · exact hdistinct
    · exact distinctSets_performOperation hdistinct hdelete hperform
  | saveAsync childrenDirty =>
    obtain ⟨_,⟨_,rfl⟩ | ⟨_,rfl⟩ | ⟨_,_,rfl⟩⟩ := saveAsync_cases h
    · exact ⟨hdistinct,hshown⟩
    · exact ⟨distinctSets_startSave hdistinct,shown_startSave hshown⟩
    · exact ⟨distinctSets_startSave hdistinct,shown_startSave hshown⟩
  | saveInBatch =>
    obtain ⟨_,rfl⟩ := saveInBatch_eq_ok.mp h
    exact ⟨distinctSets_startSave hdistinct,shown_startSave hshown⟩
  | handleSaveResult result =>
    obtain ⟨changes,object,_,hmerge,rfl⟩ := handleSaveResult_cases h
    refine ⟨distinctSets_mergeAfterSave hdistinct hmerge,
      shown_mergeAfterSave hdistinct ?_ hshown hmerge⟩
    rintro rfl
    exact he.2
  | mergeAfterFetch result completeData =>
    obtain ⟨object,hobject,rfl⟩ := withObject_eq_ok.mp h
    obtain ⟨merged,hearlier,hunsaved,hrebuilt⟩ := ParseObject.mergeAfterFetch_cases hobject
    refine ⟨?_,shown_rebuilt hrebuilt⟩
    rw [ParseObject.rebuilt_queue hrebuilt,ParseObject.operationSetQueue,hearlier,hunsaved]
    exact hdistinct
  | revert childrenDirty =>
    obtain ⟨object,hobject,rfl⟩ := withObject_eq_ok.mp h
    exact ⟨distinctSets_revert hdistinct hobject,shown_revert hshown hobject⟩
  | revertObjectForKey key =>
    obtain ⟨object,hobject,rfl⟩ := withObject_eq_ok.mp h
    exact ⟨distinctSets_revertObjectForKey hdistinct hobject,
      shown_revertObjectForKey hshown hobject⟩

theorem shownInvariant_initial (complete : Bool) :
    ShownInvariant E (initial complete : SaveSession ν α) := by
  constructor
  · intro set hset key p hp
    obtain rfl := List.mem_singleton.mp hset
    simp [initial,ParseObject.initial] at hp
  · exact ⟨∅,rfl,AgreeingData.refl ∅⟩

/-- Wherever edits, saves, their answers, fetches and reverts have led, the user reads the
server data with the queued operations applied, up to the order between different elements
of an array. -/
theorem estimated_data_follow_queue [DecidableEq ν] (complete : Bool) {es : List (ObjectEvent ν α)}
    {s : SaveSession ν α}
    (hes : Runs.Along (step E) (fun s e => DistinctEdit E e ∧ MergesAlike E s e)
      (initial complete) es)
    (hrun : Runs.run (step E) (initial complete) es = .ok s) :
    ∃ d, estimatedDataFromServerData E s.object.serverData s.object.operationSetQueue = .ok d ∧
      AgreeingData E d s.object.estimatedData :=
  (Runs.run_invariant_along (fun _ _ _ => shownInvariant_step) hes
    (shownInvariant_initial complete) hrun).2

/-- A save that fails while a second edit of the same array waits. -/
theorem estimated_data_follow_queue_failed_save :
    ∃ s, Runs.run (step (.unsaved ℕ)) (initial true : SaveSession ℕ ℕ)
        [.performOperation (.addUnique [1,2]) "scores",.saveAsync false,
          .performOperation (.addUnique [2,3]) "scores",.handleSaveResult none] = .ok s ∧
      ∃ d, estimatedDataFromServerData (.unsaved ℕ) s.object.serverData
          s.object.operationSetQueue = .ok d ∧
        AgreeingData (.unsaved ℕ) d s.object.estimatedData := by
  have hrun : ∃ s, Runs.run (step (.unsaved ℕ)) (initial true : SaveSession ℕ ℕ)
      [.performOperation (.addUnique [1,2]) "scores",.saveAsync false,
        .performOperation (.addUnique [2,3]) "scores",.handleSaveResult none] = .ok s := ⟨_,rfl⟩
  obtain ⟨s,hs⟩ := hrun
  exact ⟨s,hs,estimated_data_follow_queue true (by decide) hs⟩

end Shown

end SaveSession
end CourseraObjC
