import Mathlib.Data.List.AList
import Mathlib.Data.Finset.Basic
import Mathlib.Data.Multiset.Filter

/-! An object context over a persistent store. The context reads and writes its own
copies; a save validates the copies inserted or updated since the last save and
writes all pending changes at once, or fails and leaves them pending. -/
namespace CourseraObjC

abbrev ObjectID := ℕ

/-- The rows of the persistent store, the objects as the context sees them, and the
identifiers inserted or updated since the last save. Identifiers are never reused. -/
structure Context (α : Type*) where
  store : AList fun _ : ObjectID => α
  live : AList fun _ : ObjectID => α
  touched : Finset ObjectID
  next : ObjectID
  store_lt : ∀ i ∈ store, i < next
  live_lt : ∀ i ∈ live, i < next
  agree : ∀ i ∉ touched, ∀ a, live.lookup i = some a → store.lookup i = some a

/-- An order in which an unsorted fetch may return what matches. -/
structure FetchOrder (β : Type*) where
  order : List β → List β
  perm : ∀ l, (order l).Perm l

def FetchOrder.putFirst {β : Type*} [DecidableEq β] (x : β) : FetchOrder β where
  order l := if x ∈ l then x::l.erase x else l
  perm l := by
    split_ifs with h
    · exact (List.perm_cons_erase h).symm
    · exact List.Perm.refl l

namespace Context

variable {α : Type*}

def ofStore (rows : AList fun _ : ObjectID => α) (next : ObjectID) (h : ∀ i ∈ rows, i < next) :
    Context α where
  store := rows
  live := rows
  touched := ∅
  next := next
  store_lt := h
  live_lt := h
  agree _ _ _ ha := ha

def empty : Context α := ofStore ∅ 0 (by simp)

def object? (c : Context α) (i : ObjectID) : Option α := c.live.lookup i

def stored? (c : Context α) (i : ObjectID) : Option α := c.store.lookup i

def insertNewObject (a : α) (c : Context α) : Context α where
  store := c.store
  live := c.live.insert c.next a
  touched := insert c.next c.touched
  next := c.next+1
  store_lt i hi := Nat.lt_succ_of_lt (c.store_lt i hi)
  live_lt i hi := by
    rcases (AList.mem_insert _).mp hi with rfl | hi
    · exact Nat.lt_succ_self _
    · exact Nat.lt_succ_of_lt (c.live_lt i hi)
  agree i hi b hb := by
    have hne : i ≠ c.next := fun he => hi (by simp [he])
    rw [AList.lookup_insert_ne hne] at hb
    exact c.agree i (fun h => hi (by simp [h])) b hb

/-- Write to an object; writing to one that has left the context changes nothing in it. -/
def modify (i : ObjectID) (f : α → α) (c : Context α) : Context α :=
  match h : c.live.lookup i with
  | none => c
  | some a => {
      store := c.store
      live := c.live.insert i (f a)
      touched := insert i c.touched
      next := c.next
      store_lt := c.store_lt
      live_lt := by
        intro j hj
        rcases (AList.mem_insert _).mp hj with rfl | hj
        · exact c.live_lt j (AList.lookup_isSome.mp (by simp [h]))
        · exact c.live_lt j hj
      agree := by
        intro j hj b hb
        have hne : j ≠ i := fun he => hj (by simp [he])
        rw [AList.lookup_insert_ne hne] at hb
        exact c.agree j (fun h => hj (by simp [h])) b hb }

def deleteObject (i : ObjectID) (c : Context α) : Context α where
  store := c.store
  live := c.live.erase i
  touched := c.touched.erase i
  next := c.next
  store_lt := c.store_lt
  live_lt j hj := c.live_lt j (AList.mem_erase.mp hj).2
  agree j hj a ha := by
    have hne : j ≠ i := fun he => by
      rw [he,AList.lookup_erase] at ha
      cases ha
    rw [AList.lookup_erase_ne hne] at ha
    exact c.agree j (fun h => hj (Finset.mem_erase.mpr ⟨hne,h⟩)) a ha

def hasChanges (c : Context α) : Prop :=
  c.touched.Nonempty ∨ ∃ i ∈ c.store.keys, i ∉ c.live

instance (c : Context α) : Decidable c.hasChanges :=
  inferInstanceAs (Decidable (_ ∨ ∃ i ∈ c.store.keys, i ∉ c.live))

/-- Every pending insert and update passes the validation of the data model. -/
def Saveable (valid : α → Bool) (c : Context α) : Prop :=
  ∀ i ∈ c.touched, (c.object? i).all valid = true

instance (valid : α → Bool) (c : Context α) : Decidable (c.Saveable valid) :=
  inferInstanceAs (Decidable (∀ i ∈ c.touched, (c.object? i).all valid = true))

def committed (c : Context α) : Context α := ofStore c.live c.next c.live_lt

/-- `io` is the answer of the storage below. A failing save changes nothing, so a
later save retries everything that is still pending. -/
def save (valid : α → Bool) (io : Bool) (c : Context α) : Option (Context α) :=
  if c.Saveable valid ∧ io = true then some c.committed else none

def objects (c : Context α) : List (ObjectID × α) := c.live.entries.map fun e => (e.1,e.2)

def rows (c : Context α) : List (ObjectID × α) := c.store.entries.map fun e => (e.1,e.2)

def values (c : Context α) : Multiset α := ↑(c.objects.map Prod.snd)

def storedValues (c : Context α) : Multiset α := ↑(c.rows.map Prod.snd)

/-- The context of the next launch: the store as it is, and nothing pending. -/
def relaunched (c : Context α) : Context α := ofStore c.store c.next c.store_lt

/-- A fetch sees pending changes and promises no order. -/
def executeFetchRequest (o : FetchOrder (ObjectID × α)) (predicate : α → Bool) (c : Context α) :
    List (ObjectID × α) := o.order (c.objects.filter fun x => predicate x.2)

/-- Nothing is pending: the store already holds what the context shows. -/
def Settled (c : Context α) : Prop := ∀ i, c.stored? i = c.object? i

theorem settled_ofStore (rows : AList fun _ : ObjectID => α) (n : ObjectID)
    (h : ∀ i ∈ rows, i < n) : (ofStore rows n h).Settled := fun _ => rfl

/-! ### Reading after writing -/

@[simp] theorem object?_ofStore (rows : AList fun _ : ObjectID => α) (n : ObjectID)
    (h : ∀ i ∈ rows, i < n) (i : ObjectID) : (ofStore rows n h).object? i = rows.lookup i := rfl
@[simp] theorem stored?_ofStore (rows : AList fun _ : ObjectID => α) (n : ObjectID)
    (h : ∀ i ∈ rows, i < n) (i : ObjectID) : (ofStore rows n h).stored? i = rows.lookup i := rfl

theorem object?_lt {c : Context α} {i : ObjectID} {a : α} (h : c.object? i = some a) : i < c.next :=
  c.live_lt i (AList.lookup_isSome.mp (Option.isSome_of_eq_some h))

@[simp] theorem object?_next (c : Context α) : c.object? c.next = none :=
  AList.lookup_eq_none.mpr fun h => Nat.lt_irrefl _ (c.live_lt _ h)

@[simp] theorem object?_insertNewObject (c : Context α) (a : α) (i : ObjectID) :
    (c.insertNewObject a).object? i = if i = c.next then some a else c.object? i := by
  simp only [object?,insertNewObject]
  split_ifs with h
  · rw [h,AList.lookup_insert]
  · exact AList.lookup_insert_ne h
@[simp] theorem stored?_insertNewObject (c : Context α) (a : α) (i : ObjectID) :
    (c.insertNewObject a).stored? i = c.stored? i := rfl
@[simp] theorem next_insertNewObject (c : Context α) (a : α) :
    (c.insertNewObject a).next = c.next+1 := rfl
@[simp] theorem touched_insertNewObject (c : Context α) (a : α) :
    (c.insertNewObject a).touched = insert c.next c.touched := rfl

/-- The two outcomes of a write, so that no later proof opens `modify`. -/
theorem modify_of_none {c : Context α} {i : ObjectID} (f : α → α) (h : c.object? i = none) :
    c.modify i f = c := by
  unfold modify
  split
  · rfl
  · rename_i a ha
    cases h.symm.trans ha

theorem modify_live {c : Context α} {i : ObjectID} {a : α} (f : α → α) (h : c.object? i = some a) :
    (c.modify i f).live = c.live.insert i (f a) := by
  unfold modify
  split
  · rename_i hn
    cases h.symm.trans hn
  · rename_i b hb
    obtain rfl : a = b := Option.some.inj (h.symm.trans hb)
    rfl

@[simp] theorem object?_modify (c : Context α) (i j : ObjectID) (f : α → α) :
    (c.modify i f).object? j = if j = i then (c.object? i).map f else c.object? j := by
  cases h : c.object? i with
  | none =>
    rw [modify_of_none f h]
    split_ifs with hj
    · rw [hj,h,Option.map_none]
    · rfl
  | some a =>
    rw [Option.map_some,object?,modify_live f h]
    split_ifs with hj
    · rw [hj,AList.lookup_insert]
    · exact AList.lookup_insert_ne hj
@[simp] theorem stored?_modify (c : Context α) (i j : ObjectID) (f : α → α) :
    (c.modify i f).stored? j = c.stored? j := by
  unfold modify
  split <;> rfl
@[simp] theorem next_modify (c : Context α) (i : ObjectID) (f : α → α) :
    (c.modify i f).next = c.next := by
  unfold modify
  split <;> rfl

@[simp] theorem object?_deleteObject (c : Context α) (i j : ObjectID) :
    (c.deleteObject i).object? j = if j = i then none else c.object? j := by
  simp only [object?,deleteObject]
  split_ifs with h
  · rw [h,AList.lookup_erase]
  · exact AList.lookup_erase_ne h
@[simp] theorem stored?_deleteObject (c : Context α) (i j : ObjectID) :
    (c.deleteObject i).stored? j = c.stored? j := rfl
@[simp] theorem next_deleteObject (c : Context α) (i : ObjectID) : (c.deleteObject i).next = c.next := rfl

@[simp] theorem object?_committed (c : Context α) (i : ObjectID) :
    c.committed.object? i = c.object? i := rfl
@[simp] theorem stored?_committed (c : Context α) (i : ObjectID) :
    c.committed.stored? i = c.object? i := rfl
@[simp] theorem next_committed (c : Context α) : c.committed.next = c.next := rfl
@[simp] theorem touched_committed (c : Context α) : c.committed.touched = ∅ := rfl

theorem settled_committed (c : Context α) : c.committed.Settled := fun _ => rfl

theorem save_eq_some {valid : α → Bool} {io : Bool} {c d : Context α} :
    c.save valid io = some d ↔ c.Saveable valid ∧ io = true ∧ d = c.committed := by
  unfold save
  split_ifs with h
  · simp only [h,Option.some.injEq,true_and,eq_comm]
  · simp only [false_iff]
    rintro ⟨hs,hio,_⟩
    exact h ⟨hs,hio⟩

/-- An object that is not valid, in a context over a valid store, is pending. -/
theorem mem_touched_of_invalid {valid : α → Bool} {c : Context α}
    (hstore : ∀ i a, c.stored? i = some a → valid a = true) {i : ObjectID} {a : α}
    (ha : c.object? i = some a) (hv : valid a = false) : i ∈ c.touched := by
  by_contra hi
  have := hstore i a (c.agree i hi a ha)
  simp [hv] at this

/-- Over a valid store, saving succeeds exactly if no live object is invalid: an
untouched object is the stored one. -/
theorem saveable_iff {valid : α → Bool} {c : Context α}
    (hstore : ∀ i a, c.stored? i = some a → valid a = true) :
    c.Saveable valid ↔ ∀ i a, c.object? i = some a → valid a = true := by
  constructor
  · intro h i a ha
    by_contra hv
    have := h i (mem_touched_of_invalid hstore ha (by simpa using hv))
    simp [ha,hv] at this
  · intro h i _
    cases ho : c.object? i with
    | none => rfl
    | some a => exact h i a ho

theorem hasChanges_of_not_saveable {valid : α → Bool} {c : Context α} (h : ¬ c.Saveable valid) :
    c.hasChanges := by
  simp only [Saveable,not_forall] at h
  obtain ⟨i,hi,_⟩ := h
  exact Or.inl ⟨i,hi⟩

/-! ### Fetching -/

theorem mem_objects {c : Context α} {i : ObjectID} {a : α} :
    (i,a) ∈ c.objects ↔ c.object? i = some a := by
  rw [object?,← Option.mem_def,AList.mem_lookup_iff]
  simp only [objects,List.mem_map,Prod.mk.injEq]
  constructor
  · rintro ⟨⟨j,b⟩,hb,rfl,rfl⟩
    exact hb
  · intro h
    exact ⟨⟨i,a⟩,h,rfl,rfl⟩

theorem mem_values {c : Context α} {a : α} : a ∈ c.values ↔ ∃ i, c.object? i = some a := by
  simp only [values,Multiset.mem_coe,List.mem_map]
  constructor
  · rintro ⟨⟨i,b⟩,hb,rfl⟩
    exact ⟨i,mem_objects.mp hb⟩
  · rintro ⟨i,hi⟩
    exact ⟨(i,a),mem_objects.mpr hi,rfl⟩

theorem values_eq_zero {c : Context α} : c.values = 0 ↔ ∀ i, c.object? i = none := by
  rw [Multiset.eq_zero_iff_forall_notMem]
  constructor
  · intro h i
    by_contra hi
    obtain ⟨a,ha⟩ := Option.ne_none_iff_exists'.mp hi
    exact h a (mem_values.mpr ⟨i,ha⟩)
  · intro h a ha
    obtain ⟨i,hi⟩ := mem_values.mp ha
    simp [h] at hi

theorem storedValues_eq_zero {c : Context α} : c.storedValues = 0 ↔ ∀ i, c.stored? i = none :=
  values_eq_zero (c := c.relaunched)

theorem Settled.storedValues {c : Context α} (h : c.Settled) : c.storedValues = c.values := by
  have hperm : c.store.entries.Perm c.live.entries := by
    apply List.lookup_ext c.store.nodupKeys c.live.nodupKeys
    intro i a
    exact iff_of_eq (congrArg (a ∈ ·) (h i))
  exact Multiset.coe_eq_coe.mpr ((hperm.map _).map _)

theorem mem_executeFetchRequest {o : FetchOrder (ObjectID × α)} {p : α → Bool} {c : Context α}
    {i : ObjectID} {a : α} :
    (i,a) ∈ c.executeFetchRequest o p ↔ c.object? i = some a ∧ p a = true := by
  rw [executeFetchRequest,(o.perm _).mem_iff,List.mem_filter,mem_objects]

theorem nodup_executeFetchRequest (o : FetchOrder (ObjectID × α)) (p : α → Bool) (c : Context α) :
    ((c.executeFetchRequest o p).map Prod.fst).Nodup := by
  have hkeys : (c.objects.map Prod.fst).Nodup := by
    rw [objects,List.map_map]
    exact c.live.nodupKeys
  have hfiltered := hkeys.sublist ((List.filter_sublist (p := fun x => p x.2)).map Prod.fst)
  exact (((o.perm _).map Prod.fst).nodup_iff).mpr hfiltered

theorem executeFetchRequest_ne_nil {o : FetchOrder (ObjectID × α)} {p : α → Bool}
    {c : Context α} :
    c.executeFetchRequest o p ≠ [] ↔ ∃ i a, c.object? i = some a ∧ p a = true := by
  constructor
  · intro h
    obtain ⟨⟨i,a⟩,hmem⟩ := List.exists_mem_of_ne_nil _ h
    exact ⟨i,a,mem_executeFetchRequest.mp hmem⟩
  · rintro ⟨i,a,h⟩
    exact List.ne_nil_of_mem (mem_executeFetchRequest.mpr h)

theorem coe_executeFetchRequest (o : FetchOrder (ObjectID × α)) (p : α → Bool) (c : Context α) :
    (↑((c.executeFetchRequest o p).map Prod.snd) : Multiset α) = c.values.filter (p · = true) := by
  have hperm : (↑((c.executeFetchRequest o p).map Prod.snd) : Multiset α) =
      ↑((c.objects.filter fun x => p x.2).map Prod.snd) :=
    Multiset.coe_eq_coe.mpr ((o.perm _).map Prod.snd)
  rw [hperm,values,Multiset.filter_coe]
  simp [List.filter_map,Function.comp_def]

theorem objects_insertNewObject (c : Context α) (a : α) :
    (c.insertNewObject a).objects = (c.next,a)::c.objects := by
  have hnew : c.next ∉ c.live := fun h => Nat.lt_irrefl _ (c.live_lt _ h)
  simp [objects,insertNewObject,List.kerase_of_notMem_keys hnew]

theorem values_deleteObject {c : Context α} {i : ObjectID} {a : α} (h : c.object? i = some a) :
    c.values = a ::ₘ (c.deleteObject i).values := by
  have hkey : i ∈ c.live.entries.keys :=
    AList.lookup_isSome.mp (Option.isSome_of_eq_some h)
  obtain ⟨b,l₁,l₂,_,hsplit,herase⟩ := List.exists_of_kerase hkey
  have hb : b = a := by
    have hmem : (⟨i,b⟩ : Sigma fun _ : ObjectID => α) ∈ c.live.entries := by simp [hsplit]
    have hlook := AList.mem_lookup_iff.mpr hmem
    rw [Option.mem_def] at hlook
    exact Option.some.inj (hlook.symm.trans h)
  have hentries : (c.deleteObject i).live.entries = l₁++l₂ := herase
  have hvals : (c.deleteObject i).values = ↑((l₁++l₂).map Sigma.snd) := by
    simp [values,objects,hentries,Function.comp_def]
  rw [hvals,← hb]
  simp only [values,objects,hsplit,Multiset.cons_coe,Multiset.coe_eq_coe,List.map_map]
  simp [Function.comp_def]

@[simp] theorem storedValues_committed (c : Context α) : c.committed.storedValues = c.values := rfl
@[simp] theorem values_committed (c : Context α) : c.committed.values = c.values := rfl

end Context
end CourseraObjC
