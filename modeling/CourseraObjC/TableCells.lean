import CourseraObjC.EditScreen
import CourseraObjC.FetchedResults

/-! The cells of ToDoManager's table. While the controller's callbacks run, its objects
are the new ones already and the table's rows are still the old ones; a cell exists only
for a row on screen, and `prepareForSegue:sender:` opens the entity the tapped cell holds. -/
namespace CourseraObjC
namespace ToDoManager

open Runs RowOps MyUITableViewController

structure MyUITableViewCell where
  toDoTitleLabel : Option String
  toDoDueDateLabel : Option String
  localToDoEntity : Option ObjectID
  deriving DecidableEq

abbrev Rows := List (Option MyUITableViewCell)

section Table

/- The date formatter of the cells and the context their entities live in. -/
variable (stringFromDate : NSDate → String) (c : Context ToDoEntity)

def MyUITableViewCell.setInternalFields (incomingToDoEntity : ObjectID) (_ : MyUITableViewCell) :
    MyUITableViewCell where
  toDoTitleLabel := (c.object? incomingToDoEntity).bind ToDoEntity.toDoTitle
  localToDoEntity := some incomingToDoEntity
  toDoDueDateLabel :=
    ((c.object? incomingToDoEntity).bind ToDoEntity.lastUpdateDateTime).map stringFromDate

/-- `dequeued` is any cell the table reuses. -/
def cellForRowAtIndexPath (dequeued : MyUITableViewCell) (entity : ObjectID) : MyUITableViewCell :=
  dequeued.setInternalFields stringFromDate c entity

/-- Row operations wait for the end of the update block. -/
def perform (objects : List ObjectID) (rows : Rows) : TableMessage → Except NoObject Rows
  | .insertRowsAtIndexPaths _ => .ok rows
  | .deleteRowsAtIndexPaths _ => .ok rows
  | .fillCell row index =>
    match objects[index]? with
    | none => .error ⟨index⟩
    | some entity =>
      .ok (rows.modify row (Option.map (MyUITableViewCell.setInternalFields stringFromDate c entity)))

/-- The table asks for the cells of the rows on screen that have none, and drops the
cells of the others. -/
def layoutSubviews (dequeued : MyUITableViewCell) (visible : ℕ → Bool) (objects : List ObjectID)
    (rows : Rows) : Rows :=
  objects.mapIdx fun k entity =>
    if visible k then
      some ((rows[k]?.join).getD (cellForRowAtIndexPath stringFromDate c dequeued entity))
    else none

def ShowsObjects (visible : ℕ → Bool) (objects : List ObjectID) (rows : Rows) : Prop :=
  rows.map (Option.map MyUITableViewCell.localToDoEntity) =
    objects.mapIdx fun k entity => if visible k then some (some entity) else none

theorem shows_iff {visible : ℕ → Bool} {objects : List ObjectID} {rows : Rows} :
    ShowsObjects visible objects rows ↔
      rows.length = objects.length ∧ ∀ k a, objects[k]? = some a →
        rows[k]?.map (Option.map MyUITableViewCell.localToDoEntity) =
          some (if visible k then some (some a) else none) := by
  constructor
  · intro h
    refine ⟨by simpa using congrArg List.length h,?_⟩
    intro k a ha
    have hk := congrArg (·[k]?) h
    simpa [ha] using hk
  · rintro ⟨hlength,hrows⟩
    apply List.ext_getElem?
    intro k
    by_cases hk : k < objects.length
    · have ha := List.getElem?_eq_getElem hk
      simpa [ha] using hrows k _ ha
    · simp [hk,hlength]

/-- No call raises, the block is accepted, and the rows on screen then hold their objects. -/
def CellsFollow (dequeued : MyUITableViewCell) (visible : ℕ → Bool) (after : List ObjectID)
    (rows : Rows) (batch : List (Change ObjectID)) : Prop :=
  ∃ rows', run (perform stringFromDate c after) rows (batch.flatMap didChangeObject) = .ok rows' ∧
    ∃ moved, (rowOps didChangeObject batch).endUpdates (after.map fun _ => none) rows' = some moved ∧
      ShowsObjects visible after (layoutSubviews stringFromDate c dequeued visible after moved)

variable {stringFromDate : NSDate → String} {c : Context ToDoEntity} {objects : List ObjectID}
  {rows rows' : Rows} {ms : List TableMessage}

theorem perform_completes_iff (rows : Rows) (m : TableMessage) :
    (∃ rows', perform stringFromDate c objects rows m = .ok rows') ↔
      ∀ i k, m = .fillCell i k → k < objects.length := by
  cases m with
  | insertRowsAtIndexPaths is => simp [perform]
  | deleteRowsAtIndexPaths is => simp [perform]
  | fillCell i k =>
    by_cases hk : k < objects.length
    · simp [perform,hk]
    · simp [perform,hk]

theorem setInternalFields_twice (e e' : ObjectID) :
    Option.map (MyUITableViewCell.setInternalFields stringFromDate c e') ∘
        Option.map (MyUITableViewCell.setInternalFields stringFromDate c e) =
      Option.map (MyUITableViewCell.setInternalFields stringFromDate c e') := by
  funext cell
  cases cell <;> rfl

theorem run_perform (h : run (perform stringFromDate c objects) rows ms = .ok rows') (i : ℕ) :
    (∃ k e, .fillCell i k ∈ ms ∧ objects[k]? = some e ∧
        rows'[i]? = rows[i]?.map
          (Option.map (MyUITableViewCell.setInternalFields stringFromDate c e))) ∨
      (∀ k, .fillCell i k ∉ ms) ∧ rows'[i]? = rows[i]? := by
  induction ms generalizing rows with
  | nil =>
    obtain rfl : rows = rows' := by simpa using h
    exact Or.inr ⟨by simp,rfl⟩
  | cons m ms ih =>
    obtain ⟨rows₁,hstep,hrest⟩ := run_cons_eq_ok.mp h
    cases m with
    | insertRowsAtIndexPaths is =>
      obtain rfl := Except.ok.inj hstep
      simpa using ih hrest
    | deleteRowsAtIndexPaths is =>
      obtain rfl := Except.ok.inj hstep
      simpa using ih hrest
    | fillCell r k =>
      cases hk : objects[k]? with
      | none => simp [perform,hk] at hstep
      | some e =>
        simp only [perform,hk,Except.ok.injEq] at hstep
        have hrow : rows₁[i]? = if r = i then
            rows[i]?.map (Option.map (MyUITableViewCell.setInternalFields stringFromDate c e))
            else rows[i]? := by
          rw [← hstep,List.getElem?_modify]
          by_cases hr : r = i <;> simp [hr]
        rcases ih hrest with ⟨k',e',hmem,he',hrow'⟩ | ⟨hnone,hrow'⟩
        · refine Or.inl ⟨k',e',by simp [hmem],he',?_⟩
          rw [hrow',hrow]
          by_cases hr : r = i
          · rw [if_pos hr,Option.map_map,setInternalFields_twice]
          · rw [if_neg hr]
        · by_cases hr : r = i
          · exact Or.inl ⟨k,e,by simp [hr],hk,by rw [hrow',hrow,if_pos hr]⟩
          · refine Or.inr ⟨?_,by rw [hrow',hrow,if_neg hr]⟩
            intro k'
            simp [hnone k',Ne.symm hr]

theorem perform_length {m : TableMessage} (h : perform stringFromDate c objects rows m = .ok rows') :
    rows'.length = rows.length := by
  cases m with
  | insertRowsAtIndexPaths is =>
    obtain rfl := Except.ok.inj h
    rfl
  | deleteRowsAtIndexPaths is =>
    obtain rfl := Except.ok.inj h
    rfl
  | fillCell r k =>
    cases hk : objects[k]? with
    | none => simp [perform,hk] at h
    | some e =>
      simp only [perform,hk,Except.ok.injEq] at h
      rw [← h,List.length_modify]

theorem run_perform_length (h : run (perform stringFromDate c objects) rows ms = .ok rows') :
    rows'.length = rows.length := by
  apply run_invariant (I := fun r => r.length = rows.length) _ rfl h
  intro m s t hs hstep
  exact (perform_length hstep).trans hs

theorem ShowsObjects.cell {visible : ℕ → Bool} (h : ShowsObjects visible objects rows) {i : ℕ}
    {a : ObjectID} (ha : objects[i]? = some a) (hi : visible i = true) :
    ∃ cell, rows[i]? = some (some cell) ∧ cell.localToDoEntity = some a := by
  have hrow := (shows_iff.mp h).2 i a ha
  rw [if_pos hi] at hrow
  obtain ⟨row,hget,hentity⟩ := Option.map_eq_some_iff.mp hrow
  obtain ⟨cell,rfl,hcell⟩ := Option.map_eq_some_iff.mp hentity
  exact ⟨cell,hget,hcell⟩

theorem ShowsObjects.noCell {visible : ℕ → Bool} (h : ShowsObjects visible objects rows) {i : ℕ}
    {a : ObjectID} (ha : objects[i]? = some a) (hi : visible i = false) :
    rows[i]? = some none := by
  have hrow := (shows_iff.mp h).2 i a ha
  simp only [hi,Bool.false_eq_true,if_false] at hrow
  obtain ⟨row,hget,hentity⟩ := Option.map_eq_some_iff.mp hrow
  rw [hget,Option.map_eq_none_iff.mp hentity]

theorem shows_layout_iff {dequeued : MyUITableViewCell} {visible : ℕ → Bool} :
    ShowsObjects visible objects
        (layoutSubviews stringFromDate c dequeued visible objects rows) ↔
      ∀ k a, objects[k]? = some a → visible k = true →
        ((rows[k]?.join).getD
          (cellForRowAtIndexPath stringFromDate c dequeued a)).localToDoEntity = some a := by
  rw [shows_iff]
  constructor
  · rintro ⟨_,h⟩ k a ha hk
    simpa [layoutSubviews,ha,hk] using h k a ha
  · intro h
    refine ⟨by simp [layoutSubviews],?_⟩
    intro k a ha
    by_cases hk : visible k = true
    · simp [layoutSubviews,ha,hk,h k a ha hk]
    · simp [layoutSubviews,ha,hk]

/-! ### One batch -/

variable {before after : List ObjectID} {batch : List (Change ObjectID)} {visible visible' : ℕ → Bool}

theorem cell_of_updated (hshow : ShowsObjects visible before rows)
    (hrun : run (perform stringFromDate c after) rows (batch.flatMap didChangeObject) = .ok rows')
    {a : ObjectID} {i j : ℕ} (hi : before[i]? = some a) (hvisible : visible i = true)
    (hupdate : .update a i j ∈ batch) :
    ∃ cell, rows'[i]? = some (some cell) ∧ cell.localToDoEntity = after[i]? := by
  obtain ⟨cell,hcell,_⟩ := hshow.cell hi hvisible
  rcases run_perform hrun i with ⟨k,e,hmem,he,hrow⟩ | ⟨hnone,_⟩
  · obtain rfl := (mem_fillCell_iff.mp hmem).1
    exact ⟨_,by rw [hrow,hcell,Option.map_some,Option.map_some],he.symm⟩
  · exact absurd (mem_fillCell_iff.mpr ⟨rfl,a,j,hupdate⟩) (hnone i)

theorem cell_of_not_updated
    (hrun : run (perform stringFromDate c after) rows (batch.flatMap didChangeObject) = .ok rows')
    {i : ℕ} (hupdate : ∀ a j, .update a i j ∉ batch) : rows'[i]? = rows[i]? := by
  rcases run_perform hrun i with ⟨k,e,hmem,_⟩ | ⟨_,hrow⟩
  · obtain ⟨_,a,j,h⟩ := mem_fillCell_iff.mp hmem
    exact absurd h (hupdate a j)
  · exact hrow

theorem noCell_after_calls (hshow : ShowsObjects visible before rows)
    (hrun : run (perform stringFromDate c after) rows (batch.flatMap didChangeObject) = .ok rows')
    {a : ObjectID} {i : ℕ} (hi : before[i]? = some a) (hvisible : visible i = false) :
    rows'[i]? = some none := by
  have hrow := hshow.noCell hi hvisible
  rcases run_perform hrun i with ⟨k,e,_,_,hrow'⟩ | ⟨_,hrow'⟩
  · rw [hrow',hrow,Option.map_some,Option.map_none]
  · rw [hrow',hrow]

theorem calls_complete_iff :
    (∃ rows', run (perform stringFromDate c after) rows (batch.flatMap didChangeObject) = .ok rows') ↔
      ∀ a i j, .update a i j ∈ batch → i < after.length := by
  rw [run_completes_iff_forall perform_completes_iff]
  constructor
  · intro h a i j hupdate
    exact h _ (mem_fillCell_iff.mpr ⟨rfl,a,j,hupdate⟩) i i rfl
  · rintro h m hm i k rfl
    obtain ⟨rfl,a,j,hupdate⟩ := mem_fillCell_iff.mp hm
    exact h a k j hupdate

theorem endUpdates_rows (h : Reports before after batch) (hlength : rows'.length = before.length) :
    (rowOps didChangeObject batch).endUpdates (after.map fun _ => none) rows' =
      some (after.map fun a =>
        if stays before after batch a then (rows'[before.idxOf a]?).join else none) := by
  conv_lhs => rw [eq_map_idxOf h.before_nodup hlength]
  exact endUpdates_didChangeObject h _ _

theorem updated_stays (h : Reports before after batch) (honce : (batch.map Change.anObject).Nodup)
    {a : ObjectID} {i j : ℕ} (hupdate : .update a i j ∈ batch) :
    stays before after batch a = true := by
  have hloc := h.located _ hupdate
  rw [stays_eq_true]
  refine ⟨List.mem_of_getElem? hloc.1,List.mem_of_getElem? hloc.2,?_⟩
  intro hmoved
  obtain ⟨i',j',hmove⟩ := mem_moved.mp hmoved
  cases List.inj_on_of_nodup_map honce hupdate hmove rfl

/-- The row of an object that stays shows it after the calls, unless an update has filled
it with what is now at its old index path. -/
theorem entity_of_staying (h : Reports before after batch) (hshow : ShowsObjects visible before rows)
    (hrun : run (perform stringFromDate c after) rows (batch.flatMap didChangeObject) = .ok rows')
    (dequeued : MyUITableViewCell) {a : ObjectID} {i k : ℕ} (hi : before[i]? = some a)
    (hk : after[k]? = some a)
    (hplace : .update a i k ∈ batch → visible i = true → i = k) :
    ((rows'[i]?.join).getD
      (cellForRowAtIndexPath stringFromDate c dequeued a)).localToDoEntity = some a := by
  cases hvisible : visible i with
  | false =>
    rw [noCell_after_calls hshow hrun hi hvisible]
    rfl
  | true =>
    by_cases hupdate : ∃ b j, .update b i j ∈ batch
    · obtain ⟨b,j,hupdate⟩ := hupdate
      have hloc := h.located _ hupdate
      obtain rfl : a = b := Option.some.inj (hi.symm.trans hloc.1)
      obtain rfl : k = j := index_unique h.after_nodup hk hloc.2
      obtain ⟨cell,hcell,hentity⟩ := cell_of_updated hshow hrun hi hvisible hupdate
      rw [hcell,Option.join_some,Option.getD_some,hentity,hplace hupdate hvisible,hk]
    · obtain ⟨cell,hcell,hentity⟩ := hshow.cell hi hvisible
      have hkeep := cell_of_not_updated hrun fun b j hb => hupdate ⟨b,j,hb⟩
      rw [hkeep,hcell,Option.join_some,Option.getD_some,hentity]

/-- The rows hold their objects after the block exactly if no updated object has moved
among the rows on screen. -/
theorem shows_after_iff (h : Reports before after batch) (honce : (batch.map Change.anObject).Nodup)
    (hshow : ShowsObjects visible before rows)
    (hrun : run (perform stringFromDate c after) rows (batch.flatMap didChangeObject) = .ok rows')
    (dequeued : MyUITableViewCell) :
    ShowsObjects visible' after (layoutSubviews stringFromDate c dequeued visible' after
        (after.map fun a =>
          if stays before after batch a then (rows'[before.idxOf a]?).join else none)) ↔
      ∀ a i j, .update a i j ∈ batch → visible i = true → visible' j = true → i = j := by
  rw [shows_layout_iff]
  constructor
  · intro hcells a i j hupdate hi hj
    have hloc := h.located _ hupdate
    have hidx : before.idxOf a = i :=
      index_unique h.before_nodup (List.getElem?_idxOf (List.mem_of_getElem? hloc.1)) hloc.1
    obtain ⟨cell,hcell,hentity⟩ := cell_of_updated hshow hrun hloc.1 hi hupdate
    have hrow := hcells j a hloc.2 hj
    simp only [List.getElem?_map,hloc.2,Option.map_some,updated_stays h honce hupdate,if_true,hidx,
      hcell,Option.join_some,Option.getD_some,hentity] at hrow
    exact index_unique h.after_nodup hrow hloc.2
  · intro hplace k a hk hvisible'
    simp only [List.getElem?_map,hk,Option.map_some,Option.join_some]
    cases hstays : stays before after batch a with
    | false => rfl
    | true =>
      have hi := List.getElem?_idxOf (stays_eq_true.mp hstays).1
      exact entity_of_staying h hshow hrun dequeued hi hk
        fun hupdate hvisible => hplace a _ k hupdate hvisible hvisible'

theorem CellsFollow.place {dequeued : MyUITableViewCell}
    (hfollow : CellsFollow stringFromDate c dequeued visible' after rows batch)
    (h : Reports before after batch) (honce : (batch.map Change.anObject).Nodup)
    (hshow : ShowsObjects visible before rows) {a : ObjectID} {i j : ℕ}
    (hupdate : .update a i j ∈ batch) :
    i < after.length ∧ (visible i = true → visible' j = true → i = j) := by
  obtain ⟨rows',hrun,moved,hmoved,hcells⟩ := hfollow
  have hlength := (run_perform_length hrun).trans (shows_iff.mp hshow).1
  rw [endUpdates_rows h hlength,Option.some.injEq] at hmoved
  subst hmoved
  exact ⟨calls_complete_iff.mp ⟨rows',hrun⟩ a i j hupdate,
    (shows_after_iff h honce hshow hrun dequeued).mp hcells a i j hupdate⟩

/-- The cells follow the controller's objects exactly if no updated object has its old
index path beyond the end of the new list, or two different rows on screen. -/
theorem cells_follow_objects_iff (h : Reports before after batch)
    (honce : (batch.map Change.anObject).Nodup) (hshow : ShowsObjects visible before rows)
    (dequeued : MyUITableViewCell) :
    CellsFollow stringFromDate c dequeued visible' after rows batch ↔
      ∀ a i j, .update a i j ∈ batch →
        i < after.length ∧ (visible i = true → visible' j = true → i = j) := by
  constructor
  · intro hfollow a i j hupdate
    exact hfollow.place h honce hshow hupdate
  · intro hplace
    have hcalls : ∃ rows', run (perform stringFromDate c after) rows
        (batch.flatMap didChangeObject) = .ok rows' :=
      calls_complete_iff.mpr fun a i j hupdate => (hplace a i j hupdate).1
    obtain ⟨rows',hrun⟩ := hcalls
    have hlength := (run_perform_length hrun).trans (shows_iff.mp hshow).1
    exact ⟨rows',hrun,_,endUpdates_rows h hlength,(shows_after_iff h honce hshow hrun dequeued).mpr
      fun a i j hupdate => (hplace a i j hupdate).2⟩

end Table

def groceries : Context ToDoEntity :=
  ((Context.empty.insertNewObject ⟨some 3,none,some "Milk"⟩).insertNewObject
    ⟨some 2,none,some "Bread"⟩).insertNewObject ⟨some 5,none,some "Soap"⟩

def groceryRows : Rows :=
  [some (cellForRowAtIndexPath toString groceries ⟨none,none,none⟩ 0),
   some (cellForRowAtIndexPath toString groceries ⟨none,none,none⟩ 1)]

theorem groceryRows_show : ShowsObjects (fun _ => true) [0,1] groceryRows := rfl

/-- An update of the first row while an entity is added at the end. -/
theorem cells_follow_groceries_iff :
    CellsFollow toString groceries ⟨none,none,none⟩ (fun _ => true) [0,1,2] groceryRows
        [.insert 2 2,.update 0 0 0] ↔
      ∀ a i j, .update a i j ∈ [Change.insert 2 2,.update 0 0 0] →
        i < 3 ∧ (true = true → true = true → i = j) :=
  cells_follow_objects_iff (show Reports [0,1] [0,1,2] [.insert 2 2,.update 0 0 0] by decide)
    (by decide) groceryRows_show ⟨none,none,none⟩

/-- An entity added at the top makes the updated one's cell stand for its neighbour, and
one deleted above makes the lookup raise. -/
theorem updated_cell_not_followed :
    (Reports [0,1] [2,0,1] [.insert 2 0,.update 1 1 2] ∧
        ShowsObjects (fun _ => true) [0,1] groceryRows ∧
        ¬ CellsFollow toString groceries ⟨none,none,none⟩ (fun _ => true) [2,0,1] groceryRows
          [.insert 2 0,.update 1 1 2]) ∧
      Reports [0,1] [1] [.delete 0 0,.update 1 1 0] ∧
        run (perform toString groceries [1]) groceryRows
          (([.delete 0 0,.update 1 1 0] : List (Change ObjectID)).flatMap didChangeObject) =
            .error ⟨1⟩ := by
  refine ⟨⟨by decide,groceryRows_show,?_⟩,by decide,rfl⟩
  intro hfollow
  have hplace := hfollow.place (show Reports [0,1] [2,0,1] [.insert 2 0,.update 1 1 2] by decide)
    (by decide) groceryRows_show (show Change.update 1 1 2 ∈ [Change.insert 2 0,.update 1 1 2] by decide)
  exact absurd (hplace.2 rfl rfl) (by decide)

end ToDoManager
end CourseraObjC
