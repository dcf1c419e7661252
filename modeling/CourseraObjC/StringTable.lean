import CourseraObjC.RowBatch
import CourseraObjC.Runs

/-! TableViewDemo's list of strings. The array and the table are two copies: each change
of the array is told to the table as one row operation inside a block of its own. -/
namespace CourseraObjC
namespace TableViewDemo

open Runs

/-- The ways a handler fails to return. The last one stands for a loop that goes on. -/
inductive Failure
  | rangeException | internalInconsistency | outOfFuel
  deriving DecidableEq

def toNSUInteger (n : ℤ) : ℕ := if n < 0 then (n+UInt64.size).toNat else n.toNat

/-- The signed integer with the bits of an unsigned one; none of them reaches 2^64. -/
def toLong (n : ℕ) : ℤ := if UInt64.size/2 ≤ n ∧ n < UInt64.size then n-UInt64.size else n

/-! ### Arrays -/

def objectAtIndex (index : ℕ) (array : List String) : Except Failure String :=
  match array[index]? with
  | none => .error .rangeException
  | some object => .ok object

def exchangeObjectAtIndex (idx1 idx2 : ℕ) (array : List String) : Except Failure (List String) := do
  let object1 ← objectAtIndex idx1 array
  let object2 ← objectAtIndex idx2 array
  return (array.set idx1 object2).set idx2 object1

/-! ### The table -/

/-- The strings on the rows, and the operations collected since `beginUpdates`. -/
structure UITableView where
  rows : List String
  updates : MoveOps

namespace UITableView

def beginUpdates (table : UITableView) : UITableView := { table with updates := ⟨⟨[],[]⟩,[]⟩ }

def insertRowsAtIndexPaths (indexPaths : List ℕ) (table : UITableView) : UITableView :=
  { table with updates.inserts := table.updates.inserts++indexPaths }

def moveRowAtIndexPath (indexPath newIndexPath : ℕ) (table : UITableView) : UITableView :=
  { table with updates.moves := table.updates.moves++[(indexPath,newIndexPath)] }

/-- `source` is the data source: its count and the string it puts on each new cell. -/
def endUpdates (source : List String) (table : UITableView) : Except Failure UITableView :=
  match table.updates.endUpdates source table.rows with
  | none => .error .internalInconsistency
  | some rows => .ok ⟨rows,⟨⟨[],[]⟩,[]⟩⟩

end UITableView

/-- `blocks` records the array and the rows at the end of every update block. -/
structure ViewController where
  ourStrings : List String
  tableView : UITableView
  blocks : List (List String × List String)

inductive Event
  | addButtonTapped (text : String)
  | sortButtonTapped

namespace ViewController

def viewDidLoad : ViewController :=
  let ourStrings := ["The first row","The second row"]
  ⟨ourStrings,⟨ourStrings,⟨⟨[],[]⟩,[]⟩⟩,[]⟩

def beginUpdates (s : ViewController) : ViewController :=
  { s with tableView := s.tableView.beginUpdates }

def endUpdates (s : ViewController) : Except Failure ViewController := do
  let tableView ← s.tableView.endUpdates s.ourStrings
  return { s with tableView := tableView, blocks := s.blocks++[(s.ourStrings,tableView.rows)] }

def addButtonTapped (text : String) (s : ViewController) : Except Failure ViewController :=
  let s := s.beginUpdates
  let s := { s with ourStrings := s.ourStrings++[text] }
  let newRow : ℤ := toLong (toNSUInteger (s.ourStrings.length-1))
  let newIndex := toNSUInteger newRow
  let s := { s with tableView := s.tableView.insertRowsAtIndexPaths [newIndex] }
  s.endUpdates

variable (compare : String → String → Ordering)

def compareAt (j : ℤ) (s : ViewController) : Except Failure ViewController := do
  let first ← objectAtIndex (toNSUInteger j) s.ourStrings
  let second ← objectAtIndex (toNSUInteger (j+1)) s.ourStrings
  if compare first second = .gt then
    let s := s.beginUpdates
    let ourStrings ← exchangeObjectAtIndex (toNSUInteger j) (toNSUInteger (j+1)) s.ourStrings
    let s := { s with ourStrings := ourStrings }
    let firstIndex := toNSUInteger j
    let secondIndex := toNSUInteger (j+1)
    let s := { s with tableView := s.tableView.moveRowAtIndexPath firstIndex secondIndex }
    s.endUpdates
  else return s

/-- `j < [ourStrings count] - 1` compares unsigned integers. -/
def innerLoop : ℕ → ℤ → ViewController → Except Failure ViewController
  | fuel, j, s =>
    if toNSUInteger j < toNSUInteger (s.ourStrings.length-1) then
      match fuel with
      | 0 => .error .outOfFuel
      | fuel+1 => do
        let s ← compareAt compare j s
        innerLoop fuel (j+1) s
    else .ok s

def outerLoop : ℕ → ViewController → Except Failure ViewController
  | 0, s => .ok s
  | i+1, s => do
    let s ← innerLoop compare s.ourStrings.length i s
    outerLoop i s

def sortButtonTapped (s : ViewController) : Except Failure ViewController :=
  let i := toLong (toNSUInteger (s.ourStrings.length-2))
  outerLoop compare (i+1).toNat s

def step (s : ViewController) : Event → Except Failure ViewController
  | .addButtonTapped text => s.addButtonTapped text
  | .sortButtonTapped => s.sortButtonTapped compare

end ViewController

open ViewController

variable (compare : String → String → Ordering) {s : ViewController}

/-! ### Integers and arrays -/

@[simp] theorem toNSUInteger_natCast (n : ℕ) : toNSUInteger n = n := by
  simp [toNSUInteger]

@[simp] theorem toNSUInteger_toLong (n : ℕ) : toNSUInteger (toLong n) = n := by
  simp only [toNSUInteger,toLong,UInt64.size]
  split_ifs <;> omega

example : toLong (toNSUInteger (([] : List String).length-2)) = -2 := by decide

theorem toNSUInteger_length_sub_one {array : List String} (h : array ≠ []) :
    toNSUInteger (array.length-1) = array.length-1 := by
  have hpos := List.length_pos_iff.mpr h
  rw [toNSUInteger,if_neg (by omega)]
  omega

theorem exists_split {array : List String} {j : ℕ} (h : j+1 < array.length) :
    ∃ above a b below, array = above++a::b::below ∧ above.length = j := by
  have hfirst : array.drop j = array[j]::array.drop (j+1) := List.drop_eq_getElem_cons (by omega)
  have hsecond : array.drop (j+1) = array[j+1]::array.drop (j+2) := List.drop_eq_getElem_cons h
  refine ⟨array.take j,array[j],array[j+1],array.drop (j+2),?_,by rw [List.length_take]; omega⟩
  rw [← hsecond,← hfirst,List.take_append_drop]

variable {above below : List String} {a b : String}

theorem objectAtIndex_first : objectAtIndex above.length (above++a::b::below) = .ok a := by
  simp [objectAtIndex]

theorem objectAtIndex_second : objectAtIndex (above.length+1) (above++a::b::below) = .ok b := by
  simp [objectAtIndex]

theorem exchangeObjectAtIndex_neighbours :
    exchangeObjectAtIndex above.length (above.length+1) (above++a::b::below) =
      .ok (above++b::a::below) := by
  simp only [exchangeObjectAtIndex,objectAtIndex_first,objectAtIndex_second]
  show Except.ok _ = _
  simp

/-! ### Table and array -/

def ViewController.InSync (s : ViewController) : Prop :=
  s.tableView.rows = s.ourStrings ∧ ∀ block ∈ s.blocks, block.2 = block.1

/-- A block that ends with the table showing the array. -/
theorem endUpdates_of_shows (hs : ∀ block ∈ s.blocks, block.2 = block.1)
    (h : s.tableView.updates.endUpdates s.ourStrings s.tableView.rows = some s.ourStrings) :
    ∃ t, s.endUpdates = .ok t ∧ t.InSync ∧ t.ourStrings = s.ourStrings := by
  have htable : s.tableView.endUpdates s.ourStrings = .ok ⟨s.ourStrings,⟨⟨[],[]⟩,[]⟩⟩ := by
    rw [UITableView.endUpdates,h]
  refine ⟨_,bind_eq_ok.mpr ⟨_,htable,rfl⟩,⟨rfl,?_⟩,rfl⟩
  intro block hblock
  rcases List.mem_append.mp hblock with hblock | hblock
  · exact hs block hblock
  · rw [List.mem_singleton.mp hblock]

theorem inSync_addButtonTapped (hs : s.InSync) (text : String) :
    ∃ t, s.addButtonTapped text = .ok t ∧ t.InSync ∧ t.ourStrings = s.ourStrings++[text] := by
  have hindex : toNSUInteger (toLong (toNSUInteger ((s.ourStrings++[text]).length-1))) =
      s.ourStrings.length := by
    rw [toNSUInteger_toLong,toNSUInteger_length_sub_one (by simp),List.length_append]
    rfl
  let u : ViewController :=
    ⟨s.ourStrings++[text],⟨s.tableView.rows,⟨⟨[],[s.ourStrings.length]⟩,[]⟩⟩,s.blocks⟩
  have hu : s.addButtonTapped text = u.endUpdates := by
    simp only [ViewController.addButtonTapped,ViewController.beginUpdates,hindex]
    rfl
  have hupdate : u.tableView.updates.endUpdates u.ourStrings u.tableView.rows = some u.ourStrings := by
    simp only [u,hs.1]
    exact MoveOps.endUpdates_append s.ourStrings text
  rw [hu]
  exact endUpdates_of_shows hs.2 hupdate

/-- One comparison exchanges the neighbours, and their rows, if they are in descending order. -/
theorem inSync_compareAt (hs : s.InSync) (hstrings : s.ourStrings = above++a::b::below) :
    ∃ t, compareAt compare above.length s = .ok t ∧ t.InSync ∧
      t.ourStrings = if compare a b = .gt then above++b::a::below else above++a::b::below := by
  have hj : toNSUInteger ((above.length : ℤ)+1) = above.length+1 := toNSUInteger_natCast _
  let u : ViewController :=
    ⟨above++b::a::below,
      ⟨s.tableView.rows,⟨⟨[],[]⟩,[(above.length,above.length+1)]⟩⟩,s.blocks⟩
  have hu : compareAt compare above.length s =
      if compare a b = .gt then u.endUpdates else .ok s := by
    simp only [compareAt,ViewController.beginUpdates,hj,toNSUInteger_natCast,hstrings,
      objectAtIndex_first,objectAtIndex_second,exchangeObjectAtIndex_neighbours]
    rfl
  have hupdate : u.tableView.updates.endUpdates u.ourStrings u.tableView.rows = some u.ourStrings := by
    simp only [u,hs.1,hstrings]
    exact MoveOps.endUpdates_exchange above below a b
  rw [hu]
  split_ifs with hdescending
  · exact endUpdates_of_shows hs.2 hupdate
  · exact ⟨s,rfl,hs,hstrings⟩

theorem inSync_innerLoop (fuel j : ℕ) (hs : s.InSync) (hne : s.ourStrings ≠ [])
    (hfuel : s.ourStrings.length-1 ≤ j+fuel) :
    ∃ t, innerLoop compare fuel j s = .ok t ∧ t.InSync ∧
      t.ourStrings.length = s.ourStrings.length := by
  induction fuel generalizing j s with
  | zero =>
    rw [innerLoop,toNSUInteger_natCast,toNSUInteger_length_sub_one hne,if_neg (by omega)]
    exact ⟨s,rfl,hs,rfl⟩
  | succ fuel ih =>
    rw [innerLoop,toNSUInteger_natCast,toNSUInteger_length_sub_one hne]
    split_ifs with hj
    · obtain ⟨above,a,b,below,hstrings,rfl⟩ := exists_split (show j+1 < s.ourStrings.length by omega)
      obtain ⟨u,hu,husync,hustrings⟩ := inSync_compareAt compare hs hstrings
      have hlength : u.ourStrings.length = s.ourStrings.length := by
        rw [hustrings,hstrings]
        split_ifs <;> simp
      have hune : u.ourStrings ≠ [] := List.length_pos_iff.mp (by omega)
      obtain ⟨t,ht,htsync,htlength⟩ := ih (above.length+1) husync hune (by omega)
      exact ⟨t,bind_eq_ok.mpr ⟨u,hu,ht⟩,htsync,htlength.trans hlength⟩
    · exact ⟨s,rfl,hs,rfl⟩

theorem inSync_outerLoop (n : ℕ) (hs : s.InSync) (hne : 0 < n → s.ourStrings ≠ []) :
    ∃ t, outerLoop compare n s = .ok t ∧ t.InSync := by
  induction n generalizing s with
  | zero => exact ⟨s,rfl,hs⟩
  | succ i ih =>
    have hne := hne i.succ_pos
    obtain ⟨u,hu,husync,hulength⟩ := inSync_innerLoop compare s.ourStrings.length i hs hne
      (by omega)
    have hune : u.ourStrings ≠ [] := by
      have hpos := List.length_pos_iff.mpr hne
      exact List.length_pos_iff.mp (by omega)
    obtain ⟨t,ht,htsync⟩ := ih husync fun _ => hune
    exact ⟨t,bind_eq_ok.mpr ⟨u,hu,ht⟩,htsync⟩

theorem inSync_sortButtonTapped (hs : s.InSync) :
    ∃ t, s.sortButtonTapped compare = .ok t ∧ t.InSync := by
  apply inSync_outerLoop compare _ hs
  intro hpos hempty
  rw [hempty] at hpos
  exact absurd hpos (by decide)

theorem inSync_step (hs : s.InSync) (e : Event) : ∃ t, s.step compare e = .ok t ∧ t.InSync := by
  cases e with
  | addButtonTapped text =>
    obtain ⟨t,ht,htsync,_⟩ := inSync_addButtonTapped hs text
    exact ⟨t,ht,htsync⟩
  | sortButtonTapped => exact inSync_sortButtonTapped compare hs

/-- After `viewDidLoad` every run of taps completes: no index is out of range and no row
count is refused, and the table shows the array at the end of every update block. -/
theorem table_shows_strings (es : List Event) :
    ∃ t, run (ViewController.step compare) viewDidLoad es = .ok t ∧ t.InSync := by
  have hload : viewDidLoad.InSync := ⟨rfl,by simp [viewDidLoad]⟩
  suffices hrun : ∀ s : ViewController, s.InSync →
      ∃ t, run (ViewController.step compare) s es = .ok t ∧ t.InSync from hrun viewDidLoad hload
  intro s hs
  induction es generalizing s with
  | nil => exact ⟨s,rfl,hs⟩
  | cons e es ih =>
    obtain ⟨u,hu,husync⟩ := inSync_step compare hs e
    obtain ⟨t,ht,htsync⟩ := ih u husync
    exact ⟨t,run_cons_eq_ok.mpr ⟨u,hu,ht⟩,htsync⟩

end TableViewDemo
end CourseraObjC
