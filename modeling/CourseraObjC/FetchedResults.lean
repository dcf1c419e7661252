import CourseraObjC.RowBatch
import CourseraObjC.Runs

/-! The two delegates of an `NSFetchedResultsController` that keep a table in step with a
list of objects: ToDoManager's `MyUITableViewController` and tableViewPlusCD's
`ViewController`. The update block spans `controllerWillChangeContent:` and
`controllerDidChangeContent:`; in between, the delegate is called once for each change. -/
namespace CourseraObjC

open RowOps Runs

variable {α : Type*}

/-- The arguments of `controller:didChangeObject:atIndexPath:forChangeType:newIndexPath:`.
There is one section, so an index path is its row. -/
inductive Change (α : Type*)
  | insert (anObject : α) (newIndexPath : ℕ)
  | delete (anObject : α) (indexPath : ℕ)
  | update (anObject : α) (indexPath newIndexPath : ℕ)
  | move (anObject : α) (indexPath newIndexPath : ℕ)
  deriving DecidableEq

namespace Change

def anObject : Change α → α
  | .insert a _ | .delete a _ | .update a _ _ | .move a _ _ => a

/-- The object of a change of the rows themselves. -/
def rowObject : Change α → Option α
  | .insert a _ | .delete a _ | .move a _ _ => some a
  | .update _ _ _ => none

def movedObject : Change α → Option α
  | .move a _ _ => some a
  | _ => none

/-- The index paths are those of the object in the old and in the new list. -/
def Located (before after : List α) : Change α → Prop
  | .insert a j => a ∉ before ∧ after[j]? = some a
  | .delete a i => before[i]? = some a ∧ a ∉ after
  | .update a i j => before[i]? = some a ∧ after[j]? = some a
  | .move a i j => before[i]? = some a ∧ after[j]? = some a

instance [DecidableEq α] (before after : List α) (ch : Change α) :
    Decidable (ch.Located before after) :=
  match ch with
  | .insert _ _ => inferInstanceAs (Decidable (_ ∧ _))
  | .delete _ _ => inferInstanceAs (Decidable (_ ∧ _))
  | .update _ _ _ => inferInstanceAs (Decidable (_ ∧ _))
  | .move _ _ _ => inferInstanceAs (Decidable (_ ∧ _))

end Change

def moved (batch : List (Change α)) : List α := batch.filterMap Change.movedObject

theorem mem_moved {batch : List (Change α)} {a : α} :
    a ∈ moved batch ↔ ∃ i j, .move a i j ∈ batch := by
  simp only [moved,List.mem_filterMap]
  constructor
  · rintro ⟨ch,hch,ha⟩
    cases ch with
    | move b i j =>
      obtain rfl : b = a := by simpa [Change.movedObject] using ha
      exact ⟨i,j,hch⟩
    | _ => simp [Change.movedObject] at ha
  · rintro ⟨i,j,h⟩
    exact ⟨_,h,rfl⟩

/-- The batches the controller may report when its objects go from `before` to `after`. -/
structure Reports (before after : List α) (batch : List (Change α)) : Prop where
  before_nodup : before.Nodup
  after_nodup : after.Nodup
  once : (batch.filterMap Change.rowObject).Nodup
  located : ∀ ch ∈ batch, ch.Located before after
  deleted : ∀ x ∈ before.zipIdx, x.1 ∉ after → .delete x.1 x.2 ∈ batch
  inserted : ∀ x ∈ after.zipIdx, x.1 ∉ before → .insert x.1 x.2 ∈ batch
  ordered : ∀ a ∈ after, ∀ b ∈ after, a ∉ moved batch → b ∉ moved batch →
    Precedes before a b → Precedes after a b

instance [DecidableEq α] (before after : List α) (batch : List (Change α)) :
    Decidable (Reports before after batch) :=
  decidable_of_iff
    (before.Nodup ∧ after.Nodup ∧ (batch.filterMap Change.rowObject).Nodup ∧
      (∀ ch ∈ batch, ch.Located before after) ∧
      (∀ x ∈ before.zipIdx, x.1 ∉ after → .delete x.1 x.2 ∈ batch) ∧
      (∀ x ∈ after.zipIdx, x.1 ∉ before → .insert x.1 x.2 ∈ batch) ∧
      ∀ a ∈ after, ∀ b ∈ after, a ∉ moved batch → b ∉ moved batch →
        Precedes before a b → Precedes after a b)
    ⟨fun ⟨h₁,h₂,h₃,h₄,h₅,h₆,h₇⟩ => ⟨h₁,h₂,h₃,h₄,h₅,h₆,h₇⟩,
      fun h => ⟨h.1,h.2,h.3,h.4,h.5,h.6,h.7⟩⟩

/-- What a delegate asks of its table: row operations, which an update block collects, and
filling the cell of a row with the object the controller has at an index path. -/
inductive TableMessage
  | insertRowsAtIndexPaths (rows : List ℕ)
  | deleteRowsAtIndexPaths (rows : List ℕ)
  | fillCell (cellForRowAtIndexPath objectAtIndexPath : ℕ)
  deriving DecidableEq

namespace TableMessage

def deletes : TableMessage → List ℕ
  | .deleteRowsAtIndexPaths rows => rows
  | _ => []

def inserts : TableMessage → List ℕ
  | .insertRowsAtIndexPaths rows => rows
  | _ => []

end TableMessage

/-- `objectAtIndexPath:` raises where the controller has no object. -/
structure NoObject where
  indexPath : ℕ
  deriving DecidableEq

/-- The block collects a row operation; the object for a cell is looked up at once. -/
def TableMessage.collect (objects : List α) (ops : RowOps) : TableMessage → Except NoObject RowOps
  | .insertRowsAtIndexPaths rows => .ok ⟨ops.deletes,ops.inserts++rows⟩
  | .deleteRowsAtIndexPaths rows => .ok ⟨ops.deletes++rows,ops.inserts⟩
  | .fillCell _ objectAtIndexPath =>
    if objectAtIndexPath < objects.length then .ok ops else .error ⟨objectAtIndexPath⟩

/-- The update block from `controllerWillChangeContent:` on; the controller has the new objects. -/
def updateBlock (didChangeObject : Change α → List TableMessage) (objects : List α)
    (batch : List (Change α)) : Except NoObject RowOps :=
  run (TableMessage.collect objects) ⟨[],[]⟩ (batch.flatMap didChangeObject)

/-- No call raises, and `endUpdates` accepts the block and leaves the new rows. -/
def RowsFollow (didChangeObject : Change α → List TableMessage) (before after : List α)
    (batch : List (Change α)) : Prop :=
  ∃ ops, updateBlock didChangeObject after batch = .ok ops ∧ ops.deletes.Nodup ∧ ops.inserts.Nodup ∧
    ops.Consistent before.length after.length ∧ ops.endUpdates after before = some after

/-- The row operations of an update block in which no call raises. -/
def rowOps (didChangeObject : Change α → List TableMessage) (batch : List (Change α)) : RowOps :=
  ⟨(batch.flatMap didChangeObject).flatMap TableMessage.deletes,
    (batch.flatMap didChangeObject).flatMap TableMessage.inserts⟩

theorem collect_eq_ok {objects : List α} {ms : List TableMessage} {ops ops' : RowOps} :
    run (TableMessage.collect objects) ops ms = .ok ops' ↔
      (∀ i k, .fillCell i k ∈ ms → k < objects.length) ∧
        ops' = ⟨ops.deletes++ms.flatMap TableMessage.deletes,
          ops.inserts++ms.flatMap TableMessage.inserts⟩ := by
  induction ms generalizing ops with
  | nil => simp [eq_comm]
  | cons m ms ih =>
    rw [run_cons_eq_ok]
    cases m with
    | insertRowsAtIndexPaths rows =>
      simp [TableMessage.collect,TableMessage.deletes,TableMessage.inserts,ih]
    | deleteRowsAtIndexPaths rows =>
      simp [TableMessage.collect,TableMessage.deletes,TableMessage.inserts,ih]
    | fillCell i k =>
      simp only [TableMessage.collect,guard_eq_ok,and_assoc,exists_eq_left,exists_and_left,ih]
      constructor
      · rintro ⟨hk,hrest,rfl⟩
        refine ⟨fun i' k' hmem => ?_,rfl⟩
        rcases List.mem_cons.mp hmem with heq | hmem
        · cases heq
          exact hk
        · exact hrest i' k' hmem
      · rintro ⟨hall,rfl⟩
        exact ⟨hall i k List.mem_cons_self,fun i' k' hmem => hall i' k' (List.mem_cons_of_mem _ hmem),
          rfl⟩

theorem updateBlock_eq_ok {didChangeObject : Change α → List TableMessage} {objects : List α}
    {batch : List (Change α)} {ops : RowOps} :
    updateBlock didChangeObject objects batch = .ok ops ↔
      (∀ i k, .fillCell i k ∈ batch.flatMap didChangeObject → k < objects.length) ∧
        ops = rowOps didChangeObject batch := by
  rw [updateBlock,collect_eq_ok]
  simp only [rowOps,List.nil_append]

theorem mem_deletes {didChangeObject : Change α → List TableMessage} {batch : List (Change α)}
    {i : ℕ} : i ∈ (rowOps didChangeObject batch).deletes ↔
      ∃ ch ∈ batch, i ∈ (didChangeObject ch).flatMap TableMessage.deletes := by
  simp only [rowOps,List.flatMap_assoc,List.mem_flatMap]

theorem mem_inserts {didChangeObject : Change α → List TableMessage} {batch : List (Change α)}
    {j : ℕ} : j ∈ (rowOps didChangeObject batch).inserts ↔
      ∃ ch ∈ batch, j ∈ (didChangeObject ch).flatMap TableMessage.inserts := by
  simp only [rowOps,List.flatMap_assoc,List.mem_flatMap]

/-! ### ToDoManager -/

namespace ToDoManager

def MyUITableViewController.didChangeObject : Change α → List TableMessage
  | .insert _ newIndexPath => [.insertRowsAtIndexPaths [newIndexPath]]
  | .delete _ indexPath => [.deleteRowsAtIndexPaths [indexPath]]
  | .update _ indexPath _ => [.fillCell indexPath indexPath]
  | .move _ indexPath newIndexPath =>
    [.deleteRowsAtIndexPaths [indexPath],.insertRowsAtIndexPaths [newIndexPath]]

open MyUITableViewController

/-- The rows that live through the update block: neither deleted nor inserted nor moved. -/
def stays [DecidableEq α] (before after : List α) (batch : List (Change α)) (a : α) : Bool :=
  a ∈ before ∧ a ∈ after ∧ a ∉ moved batch

theorem stays_eq_true [DecidableEq α] {before after : List α} {batch : List (Change α)} {a : α} :
    stays before after batch a = true ↔ a ∈ before ∧ a ∈ after ∧ a ∉ moved batch := by
  simp [stays]

theorem stays_eq_false [DecidableEq α] {before after : List α} {batch : List (Change α)} {a : α} :
    stays before after batch a = false ↔ a ∉ before ∨ a ∉ after ∨ a ∈ moved batch := by
  rw [← Bool.not_eq_true,stays_eq_true]
  tauto

theorem mem_deletes_iff {batch : List (Change α)} {i : ℕ} :
    i ∈ (rowOps didChangeObject batch).deletes ↔
      ∃ a, .delete a i ∈ batch ∨ ∃ j, .move a i j ∈ batch := by
  rw [mem_deletes]
  constructor
  · rintro ⟨ch,hch,hi⟩
    cases ch with
    | insert a j => simp [didChangeObject,TableMessage.deletes] at hi
    | delete a i' =>
      obtain rfl : i = i' := by simpa [didChangeObject,TableMessage.deletes] using hi
      exact ⟨a,Or.inl hch⟩
    | update a i' j => simp [didChangeObject,TableMessage.deletes] at hi
    | move a i' j =>
      obtain rfl : i = i' := by simpa [didChangeObject,TableMessage.deletes] using hi
      exact ⟨a,Or.inr ⟨j,hch⟩⟩
  · rintro ⟨a,h | ⟨j,h⟩⟩
    · exact ⟨_,h,by simp [didChangeObject,TableMessage.deletes]⟩
    · exact ⟨_,h,by simp [didChangeObject,TableMessage.deletes]⟩

theorem mem_inserts_iff {batch : List (Change α)} {j : ℕ} :
    j ∈ (rowOps didChangeObject batch).inserts ↔
      ∃ a, .insert a j ∈ batch ∨ ∃ i, .move a i j ∈ batch := by
  rw [mem_inserts]
  constructor
  · rintro ⟨ch,hch,hj⟩
    cases ch with
    | insert a j' =>
      obtain rfl : j = j' := by simpa [didChangeObject,TableMessage.inserts] using hj
      exact ⟨a,Or.inl hch⟩
    | delete a i => simp [didChangeObject,TableMessage.inserts] at hj
    | update a i j' => simp [didChangeObject,TableMessage.inserts] at hj
    | move a i j' =>
      obtain rfl : j = j' := by simpa [didChangeObject,TableMessage.inserts] using hj
      exact ⟨a,Or.inr ⟨i,hch⟩⟩
  · rintro ⟨a,h | ⟨i,h⟩⟩
    · exact ⟨_,h,by simp [didChangeObject,TableMessage.inserts]⟩
    · exact ⟨_,h,by simp [didChangeObject,TableMessage.inserts]⟩

theorem mem_fillCell_iff {batch : List (Change α)} {i k : ℕ} :
    .fillCell i k ∈ batch.flatMap didChangeObject ↔ k = i ∧ ∃ a j, .update a i j ∈ batch := by
  rw [List.mem_flatMap]
  constructor
  · rintro ⟨ch,hch,hmem⟩
    cases ch with
    | update a i' j =>
      obtain ⟨rfl,rfl⟩ : i = i' ∧ k = i' := by simpa [didChangeObject] using hmem
      exact ⟨rfl,a,j,hch⟩
    | _ => simp [didChangeObject] at hmem
  · rintro ⟨rfl,a,j,h⟩
    exact ⟨_,h,by simp [didChangeObject]⟩

section Refinement

variable {before after : List α} {batch : List (Change α)}

/-- If each change addresses rows of its own object only, a batch that reports its objects
once addresses no row twice. -/
theorem rows_nodup {ends : TableMessage → List ℕ} {l : List α}
    (honce : (batch.filterMap Change.rowObject).Nodup)
    (hown : ∀ ch ∈ batch, (((didChangeObject ch).flatMap ends).map fun i => l[i]?).Sublist
      (ch.rowObject.toList.map some)) :
    ((batch.flatMap didChangeObject).flatMap ends).Nodup := by
  have hsub : (((batch.flatMap didChangeObject).flatMap ends).map fun i => l[i]?).Sublist
      ((batch.filterMap Change.rowObject).map some) := by
    rw [List.filterMap_eq_flatMap_toList]
    clear honce
    induction batch with
    | nil => simp
    | cons ch batch ih =>
      have hch := hown ch (by simp)
      have htail := ih fun ch' hch' => hown ch' (by simp [hch'])
      simpa only [List.flatMap_cons,List.flatMap_append,List.map_append] using hch.append htail
  exact ((honce.map (Option.some_injective α)).sublist hsub).of_map

theorem deletes_nodup (h : Reports before after batch) :
    (rowOps didChangeObject batch).deletes.Nodup := by
  apply rows_nodup (l := before) h.once
  intro ch hch
  have hloc := h.located ch hch
  cases ch with
  | delete a i => simp [didChangeObject,TableMessage.deletes,Change.rowObject,hloc.1]
  | move a i j => simp [didChangeObject,TableMessage.deletes,Change.rowObject,hloc.1]
  | _ => simp [didChangeObject,TableMessage.deletes]

theorem inserts_nodup (h : Reports before after batch) :
    (rowOps didChangeObject batch).inserts.Nodup := by
  apply rows_nodup (l := after) h.once
  intro ch hch
  have hloc := h.located ch hch
  cases ch with
  | insert a j => simp [didChangeObject,TableMessage.inserts,Change.rowObject,hloc.2]
  | move a i j => simp [didChangeObject,TableMessage.inserts,Change.rowObject,hloc.2]
  | _ => simp [didChangeObject,TableMessage.inserts]

variable [DecidableEq α]

theorem marks_deletes (h : Reports before after batch) :
    Marks (rowOps didChangeObject batch).deletes (stays before after batch) before := by
  intro i
  rw [mem_deletes_iff]
  constructor
  · rintro ⟨a,hdel | ⟨j,hmove⟩⟩
    · have hloc := h.located _ hdel
      exact ⟨a,hloc.1,stays_eq_false.mpr (Or.inr (Or.inl hloc.2))⟩
    · have hloc := h.located _ hmove
      exact ⟨a,hloc.1,stays_eq_false.mpr (Or.inr (Or.inr (mem_moved.mpr ⟨i,j,hmove⟩)))⟩
  · rintro ⟨a,hi,hgone⟩
    rcases stays_eq_false.mp hgone with hbefore | hafter | hmoved
    · exact absurd (List.mem_of_getElem? hi) hbefore
    · exact ⟨a,Or.inl (h.deleted (a,i) (List.mk_mem_zipIdx_iff_getElem?.mpr hi) hafter)⟩
    · obtain ⟨i',j,hmove⟩ := mem_moved.mp hmoved
      obtain rfl := index_unique h.before_nodup hi (h.located _ hmove).1
      exact ⟨a,Or.inr ⟨j,hmove⟩⟩

theorem marks_inserts (h : Reports before after batch) :
    Marks (rowOps didChangeObject batch).inserts (stays before after batch) after := by
  intro j
  rw [mem_inserts_iff]
  constructor
  · rintro ⟨a,hins | ⟨i,hmove⟩⟩
    · have hloc := h.located _ hins
      exact ⟨a,hloc.2,stays_eq_false.mpr (Or.inl hloc.1)⟩
    · have hloc := h.located _ hmove
      exact ⟨a,hloc.2,stays_eq_false.mpr (Or.inr (Or.inr (mem_moved.mpr ⟨i,j,hmove⟩)))⟩
  · rintro ⟨a,hj,hgone⟩
    rcases stays_eq_false.mp hgone with hbefore | hafter | hmoved
    · exact ⟨a,Or.inl (h.inserted (a,j) (List.mk_mem_zipIdx_iff_getElem?.mpr hj) hbefore)⟩
    · exact absurd (List.mem_of_getElem? hj) hafter
    · obtain ⟨i,j',hmove⟩ := mem_moved.mp hmoved
      obtain rfl := index_unique h.after_nodup hj (h.located _ hmove).2
      exact ⟨a,Or.inr ⟨i,hmove⟩⟩

theorem filter_stays (h : Reports before after batch) :
    before.filter (stays before after batch) = after.filter (stays before after batch) := by
  apply filter_eq_filter h.before_nodup h.after_nodup
  · intro a ha
    obtain ⟨hbefore,hafter,_⟩ := stays_eq_true.mp ha
    exact iff_of_true hbefore hafter
  · intro a b ha hb hab
    obtain ⟨_,ha,hma⟩ := stays_eq_true.mp ha
    obtain ⟨_,hb,hmb⟩ := stays_eq_true.mp hb
    exact h.ordered a ha b hb hma hmb hab

/-- Whatever is on the rows, the block ends with the old row of an object that stays and
with a fresh row for any other. -/
theorem endUpdates_didChangeObject {β : Type*} (h : Reports before after batch) (f g : α → β) :
    (rowOps didChangeObject batch).endUpdates (after.map g) (before.map f) =
      some (after.map fun a => if stays before after batch a then f a else g a) :=
  endUpdates_map f g (marks_deletes h) (marks_inserts h) (filter_stays h)

theorem endUpdates_objects (h : Reports before after batch) :
    (rowOps didChangeObject batch).endUpdates after before = some after := by
  have hid := endUpdates_didChangeObject h (fun a => a) fun a => a
  simpa only [ite_self,List.map_id'] using hid

omit [DecidableEq α] in
/-- An update looks its object up at the old index path; no other call can raise. -/
theorem updateBlock_completes_iff :
    (∃ ops, updateBlock didChangeObject after batch = .ok ops) ↔
      ∀ a i j, .update a i j ∈ batch → i < after.length := by
  constructor
  · rintro ⟨ops,hops⟩ a i j hupdate
    exact (updateBlock_eq_ok.mp hops).1 i i (mem_fillCell_iff.mpr ⟨rfl,a,j,hupdate⟩)
  · intro hplace
    refine ⟨_,updateBlock_eq_ok.mpr ⟨fun i k hmem => ?_,rfl⟩⟩
    obtain ⟨rfl,a,j,hupdate⟩ := mem_fillCell_iff.mp hmem
    exact hplace a k j hupdate

theorem rows_follow_of_block (h : Reports before after batch) {ops : RowOps}
    (hops : updateBlock didChangeObject after batch = .ok ops) :
    ops.deletes.Nodup ∧ ops.inserts.Nodup ∧ ops.Consistent before.length after.length ∧
      ops.endUpdates after before = some after := by
  obtain ⟨_,rfl⟩ := updateBlock_eq_ok.mp hops
  exact ⟨deletes_nodup h,inserts_nodup h,consistent_of_endUpdates (endUpdates_objects h),
    endUpdates_objects h⟩

omit [DecidableEq α] in
/-- The rows follow the controller's objects exactly if no update has its old index path beyond
the end of the new list. -/
theorem table_follows_objects_iff (h : Reports before after batch) :
    RowsFollow didChangeObject before after batch ↔
      ∀ a i j, .update a i j ∈ batch → i < after.length := by
  classical
  constructor
  · rintro ⟨ops,hops,_⟩
    exact updateBlock_completes_iff.mp ⟨ops,hops⟩
  · intro hplace
    obtain ⟨ops,hops⟩ := updateBlock_completes_iff.mpr hplace
    exact ⟨ops,hops,rows_follow_of_block h hops⟩

end Refinement

/-- One deletion, one insertion, one move and one update at once. -/
def errands : List (Change String) :=
  [.delete "bread" 1,.insert "soap" 0,.move "tea" 2 1,.update "milk" 0 2]

theorem table_follows_errands_iff :
    RowsFollow didChangeObject ["milk","bread","tea"] ["soap","tea","milk"] errands ↔
      ∀ a i j, .update a i j ∈ errands → i < 3 :=
  table_follows_objects_iff
    (show Reports ["milk","bread","tea"] ["soap","tea","milk"] errands by decide)

/-- The last of two objects is updated while the first is deleted. -/
theorem updated_last_not_followed :
    Reports ["milk","bread"] ["bread"] [.delete "milk" 0,.update "bread" 1 0] ∧
      updateBlock didChangeObject ["bread"] [.delete "milk" 0,.update "bread" 1 0] = .error ⟨1⟩ ∧
      ¬ RowsFollow didChangeObject ["milk","bread"] ["bread"]
        [.delete "milk" 0,.update "bread" 1 0] := by
  refine ⟨by decide,rfl,?_⟩
  rintro ⟨ops,hops,_⟩
  cases hops

end ToDoManager

/-! ### tableViewPlusCD -/

namespace TableViewPlusCD

open ToDoManager (MyUITableViewController.didChangeObject endUpdates_objects mem_deletes_iff
  mem_inserts_iff updateBlock_completes_iff rows_follow_of_block)

/-- A move deletes at both index paths. -/
def ViewController.didChangeObject : Change α → List TableMessage
  | .insert _ newIndexPath => [.insertRowsAtIndexPaths [newIndexPath]]
  | .delete _ indexPath => [.deleteRowsAtIndexPaths [indexPath]]
  | .update _ indexPath _ => [.fillCell indexPath indexPath]
  | .move _ indexPath newIndexPath =>
    [.deleteRowsAtIndexPaths [indexPath],.deleteRowsAtIndexPaths [newIndexPath]]

open ViewController

variable {before after : List α} {batch : List (Change α)}

theorem didChangeObject_eq {ch : Change α} (h : ch.movedObject = none) :
    didChangeObject ch = MyUITableViewController.didChangeObject ch := by
  cases ch with
  | move a i j => cases h
  | _ => rfl

theorem flatMap_eq (hstill : ∀ a i j, .move a i j ∉ batch) :
    batch.flatMap didChangeObject = batch.flatMap MyUITableViewController.didChangeObject := by
  apply List.flatMap_congr
  intro ch hch
  apply didChangeObject_eq
  cases ch with
  | move a i j => exact absurd hch (hstill a i j)
  | _ => rfl

theorem deletes_subset {i : ℕ}
    (hi : i ∈ (rowOps MyUITableViewController.didChangeObject batch).deletes) :
    i ∈ (rowOps didChangeObject batch).deletes := by
  rw [mem_deletes]
  obtain ⟨a,h | ⟨j,h⟩⟩ := mem_deletes_iff.mp hi
  · exact ⟨_,h,by simp [didChangeObject,TableMessage.deletes]⟩
  · exact ⟨_,h,by simp [didChangeObject,TableMessage.deletes]⟩

theorem mem_inserts_iff_insert {j : ℕ} :
    j ∈ (rowOps didChangeObject batch).inserts ↔ ∃ a, .insert a j ∈ batch := by
  rw [mem_inserts]
  constructor
  · rintro ⟨ch,hch,hj⟩
    cases ch with
    | insert a j' =>
      obtain rfl : j = j' := by simpa [didChangeObject,TableMessage.inserts] using hj
      exact ⟨a,hch⟩
    | _ => simp [didChangeObject,TableMessage.inserts] at hj
  · rintro ⟨a,h⟩
    exact ⟨_,h,by simp [didChangeObject,TableMessage.inserts]⟩

/-- A moved object is deleted at least once and never inserted again, so the rows are too few. -/
theorem not_consistent_of_move (h : Reports before after batch) {a : α} {i j : ℕ}
    (hmove : .move a i j ∈ batch) :
    ¬ (rowOps didChangeObject batch).Consistent before.length after.length := by
  classical
  intro hcons
  have hsibling := consistent_of_endUpdates (endUpdates_objects h)
  have hdel : (rowOps MyUITableViewController.didChangeObject batch).deletes.toFinset.card ≤
      (rowOps didChangeObject batch).deletes.toFinset.card := by
    apply Finset.card_le_card
    intro k hk
    simp only [List.mem_toFinset] at hk ⊢
    exact deletes_subset hk
  have hins : (rowOps didChangeObject batch).inserts.toFinset.card <
      (rowOps MyUITableViewController.didChangeObject batch).inserts.toFinset.card := by
    apply Finset.card_lt_card
    rw [Finset.ssubset_iff_of_subset]
    · refine ⟨j,by simpa using mem_inserts_iff.mpr ⟨a,Or.inr ⟨i,hmove⟩⟩,?_⟩
      rw [List.mem_toFinset,mem_inserts_iff_insert]
      rintro ⟨b,hb⟩
      have hbefore := (h.located _ hb).1
      have hab : b = a :=
        Option.some.inj ((h.located _ hb).2.symm.trans (h.located _ hmove).2)
      exact hbefore (hab ▸ List.mem_of_getElem? (h.located _ hmove).1)
    · intro k hk
      simp only [List.mem_toFinset,mem_inserts_iff_insert] at hk
      obtain ⟨b,hb⟩ := hk
      simpa using mem_inserts_iff.mpr ⟨b,Or.inl hb⟩
  have h₁ := hcons.2.2
  have h₂ := hsibling.2.2
  omega

/-- With a move the row counts do not add up; without one the handler is the one of
ToDoManager, the update at the old index path with it. -/
theorem rows_follow_objects_iff (h : Reports before after batch) :
    RowsFollow didChangeObject before after batch ↔
      (∀ a i j, .move a i j ∉ batch) ∧ ∀ a i j, .update a i j ∈ batch → i < after.length := by
  classical
  constructor
  · rintro ⟨ops,hops,_,_,hcons,_⟩
    obtain ⟨hplace,rfl⟩ := updateBlock_eq_ok.mp hops
    refine ⟨fun a i j hmove => not_consistent_of_move h hmove hcons,fun a i j hupdate => ?_⟩
    exact hplace i i (List.mem_flatMap.mpr ⟨_,hupdate,List.mem_singleton.mpr rfl⟩)
  · rintro ⟨hstill,hplace⟩
    obtain ⟨ops,hops⟩ := updateBlock_completes_iff.mpr hplace
    refine ⟨ops,?_,rows_follow_of_block h hops⟩
    rw [updateBlock,flatMap_eq hstill]
    exact hops

/-- A deletion and an insertion. -/
def replaced : List (Change String) := [.delete "bread" 1,.insert "soap" 0]

theorem rows_follow_replaced_iff :
    RowsFollow didChangeObject ["milk","bread"] ["soap","milk"] replaced ↔
      (∀ a i j, .move a i j ∉ replaced) ∧ ∀ a i j, .update a i j ∈ replaced → i < 2 :=
  rows_follow_objects_iff (show Reports ["milk","bread"] ["soap","milk"] replaced by decide)

/-- The order of the fetch request's sort descriptor. -/
def SortedByTitle (title : α → String) (objects : List α) : Prop :=
  objects.Pairwise fun a b => title a ≤ title b

instance (title : α → String) (objects : List α) : Decidable (SortedByTitle title objects) :=
  inferInstanceAs (Decidable (objects.Pairwise _))

/-- Object 0 gets a title that sorts behind that of object 1. -/
def renamed : List (Change ℕ) := [.move 0 0 1]

theorem renamed_not_followed :
    SortedByTitle (fun i => if i = 0 then "bread" else "milk") [0,1] ∧
      SortedByTitle (fun i => if i = 0 then "tea" else "milk") [1,0] ∧
      Reports [0,1] [1,0] renamed ∧ ¬ RowsFollow didChangeObject [0,1] [1,0] renamed := by
  refine ⟨by decide,by decide,by decide,?_⟩
  rintro ⟨ops,hops,_,_,hcons,_⟩
  obtain rfl := Except.ok.inj hops
  exact absurd hcons (by decide)

end TableViewPlusCD
end CourseraObjC
