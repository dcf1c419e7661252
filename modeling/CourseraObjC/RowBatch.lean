import Mathlib.Data.Finset.Card
import Mathlib.Data.List.Nodup

/-! The batch update of a list view. Inside an update block the view only collects row
operations; at its end all rows deleted by old index go first, then rows enter by new
index, and the rows that survive keep their order. A batch whose row counts do not add
up is refused. -/
namespace CourseraObjC

structure RowOps where
  deletes : List ℕ
  inserts : List ℕ
  deriving DecidableEq

namespace RowOps

variable {α ι : Type*}

def survivors (ops : RowOps) (rows : List α) : List α :=
  (rows.zipIdx.filter fun x => x.2 ∉ ops.deletes).map Prod.fst

/-- Go through the new indices: an inserted row comes from the data source, any other
one is the next survivor. -/
def weave (ops : RowOps) : List (α × ℕ) → List α → Option (List α)
  | [], [] => some []
  | [], _::_ => none
  | (a,k)::source, kept =>
    if k ∈ ops.inserts then (weave ops source kept).map (a::·)
    else
      match kept with
      | [] => none
      | b::kept => (weave ops source kept).map (b::·)

/-- The indices are in range, and the rows before, less the deleted and with the inserted
ones, are as many as the data source counts. -/
def Consistent (ops : RowOps) (before after : ℕ) : Prop :=
  (∀ i ∈ ops.deletes, i < before) ∧ (∀ j ∈ ops.inserts, j < after) ∧
    before+ops.inserts.toFinset.card = after+ops.deletes.toFinset.card

instance (ops : RowOps) (before after : ℕ) : Decidable (ops.Consistent before after) :=
  inferInstanceAs (Decidable (_ ∧ _ ∧ _))

/-- `source` is the data source asked for the rows that enter. -/
def endUpdates (ops : RowOps) (source rows : List α) : Option (List α) :=
  if ops.Consistent rows.length source.length then ops.weave source.zipIdx (ops.survivors rows)
  else none

theorem consistent_of_endUpdates {ops : RowOps} {source rows after : List α}
    (h : ops.endUpdates source rows = some after) : ops.Consistent rows.length source.length := by
  by_contra hc
  simp [endUpdates,hc] at h

/-- `marked` lists exactly the positions of what is not kept. -/
def Marks (marked : List ℕ) (keep : ι → Bool) (l : List ι) : Prop :=
  ∀ i, i ∈ marked ↔ ∃ a, l[i]? = some a ∧ keep a = false

theorem Marks.mem_iff {marked : List ℕ} {keep : ι → Bool} {l : List ι} (h : Marks marked keep l)
    {x : ι × ℕ} (hx : x ∈ l.zipIdx) : x.2 ∈ marked ↔ keep x.1 = false := by
  have hget := List.mem_zipIdx_iff_getElem?.mp hx
  rw [h x.2,hget]
  simp

theorem Marks.lt_length {marked : List ℕ} {keep : ι → Bool} {l : List ι} (h : Marks marked keep l)
    {i : ℕ} (hi : i ∈ marked) : i < l.length := by
  obtain ⟨a,ha,_⟩ := (h i).mp hi
  exact (List.getElem?_eq_some_iff.mp ha).1

theorem Marks.card {marked : List ℕ} {keep : ι → Bool} {l : List ι} (h : Marks marked keep l) :
    marked.toFinset.card = l.countP fun a => !keep a := by
  have hset : marked.toFinset = ((l.zipIdx.filter fun x => !keep x.1).map Prod.snd).toFinset := by
    ext i
    simp [h i,List.mk_mem_zipIdx_iff_getElem?]
  have hnodup : ((l.zipIdx.filter fun x => !keep x.1).map Prod.snd).Nodup := by
    have hsub := (List.filter_sublist (l := l.zipIdx) (p := fun x => !keep x.1)).map Prod.snd
    rw [List.zipIdx_map_snd] at hsub
    exact List.Nodup.sublist hsub List.nodup_range'
  have hcount : l.countP (fun a => !keep a) = l.zipIdx.countP fun x => !keep x.1 := by
    conv_lhs => rw [← List.zipIdx_map_fst 0 l]
    rw [List.countP_map]
    rfl
  rw [hset,List.toFinset_card_of_nodup hnodup,List.length_map,hcount,List.countP_eq_length_filter]

theorem survivors_map {ops : RowOps} {keep : ι → Bool} {l : List ι} (f : ι → α)
    (h : Marks ops.deletes keep l) : ops.survivors (l.map f) = (l.filter keep).map f := by
  have hfilter : (l.zipIdx.filter fun x => x.2 ∉ ops.deletes) =
      l.zipIdx.filter (keep ∘ Prod.fst) := by
    apply List.filter_congr
    intro x hx
    simp [h.mem_iff hx]
  have hfst : (l.zipIdx.filter (keep ∘ Prod.fst)).map Prod.fst = l.filter keep := by
    conv_rhs => rw [← List.zipIdx_map_fst 0 l]
    rw [List.filter_map]
  rw [survivors,List.zipIdx_map,List.filter_map,List.map_map,← hfst,← hfilter,List.map_map]
  rfl

theorem weave_map {ops : RowOps} {keep : ι → Bool} (f g : ι → α) {source : List (ι × ℕ)}
    (h : ∀ x ∈ source, x.2 ∈ ops.inserts ↔ keep x.1 = false) :
    ops.weave (source.map fun x => (g x.1,x.2)) ((source.filter fun x => keep x.1).map fun x => f x.1) =
      some (source.map fun x => if keep x.1 then f x.1 else g x.1) := by
  induction source with
  | nil => rfl
  | cons x source ih =>
    have hx := h x (by simp)
    have htail := ih fun y hy => h y (by simp [hy])
    cases hk : keep x.1 with
    | true =>
      have hnot : x.2 ∉ ops.inserts := by simp [hx,hk]
      simp [weave,hk,hnot,htail]
    | false =>
      have hin : x.2 ∈ ops.inserts := hx.mpr hk
      simp [weave,hk,hin,htail]

/-- A batch that deletes and inserts exactly what is not kept, where the kept rows stand
in the same order before and after, is accepted, and every row ends where it belongs. -/
theorem endUpdates_map {ops : RowOps} {keep : ι → Bool} {before after : List ι} (f g : ι → α)
    (hdel : Marks ops.deletes keep before) (hins : Marks ops.inserts keep after)
    (hkept : before.filter keep = after.filter keep) :
    ops.endUpdates (after.map g) (before.map f) =
      some (after.map fun a => if keep a then f a else g a) := by
  have hcounts : ops.Consistent (before.map f).length (after.map g).length := by
    have hb := List.length_eq_countP_add_countP keep (l := before)
    have ha := List.length_eq_countP_add_countP keep (l := after)
    have hk : before.countP keep = after.countP keep := by
      rw [List.countP_eq_length_filter,List.countP_eq_length_filter,hkept]
    have hd := hdel.card
    have hi := hins.card
    refine ⟨fun i h => by simpa using hdel.lt_length h,fun j h => by simpa using hins.lt_length h,?_⟩
    simp only [decide_not,Bool.decide_eq_true] at hb ha
    simp only [List.length_map]
    omega
  have hsource : (after.filter keep).map f =
      (after.zipIdx.filter fun x => keep x.1).map fun x => f x.1 := by
    conv_lhs => rw [← List.zipIdx_map_fst 0 after]
    rw [List.filter_map,List.map_map]
    rfl
  have hrows : (after.map fun a => if keep a then f a else g a) =
      after.zipIdx.map fun x => if keep x.1 then f x.1 else g x.1 := by
    conv_lhs => rw [← List.zipIdx_map_fst 0 after]
    rw [List.map_map]
    rfl
  rw [endUpdates,if_pos hcounts,survivors_map f hdel,hkept,hsource,hrows,List.zipIdx_map]
  exact weave_map f g fun x hx => hins.mem_iff hx

example : (RowOps.mk [0,2] [1]).endUpdates ["b","x"] ["a","b","c"] = some ["b","x"] := by decide

def Precedes (l : List ι) (a b : ι) : Prop :=
  ∃ j < l.length, ∃ i < j, l[i]? = some a ∧ l[j]? = some b

instance [DecidableEq ι] (l : List ι) (a b : ι) : Decidable (Precedes l a b) :=
  inferInstanceAs (Decidable (∃ j < l.length, ∃ i < j, l[i]? = some a ∧ l[j]? = some b))

theorem pairwise_precedes (l : List ι) : l.Pairwise (Precedes l) := by
  rw [List.pairwise_iff_getElem]
  intro i j hi hj hij
  exact ⟨j,hj,i,hij,List.getElem?_eq_getElem hi,List.getElem?_eq_getElem hj⟩

theorem index_unique {l : List ι} (hl : l.Nodup) {i i' : ℕ} {a : ι} (hi : l[i]? = some a)
    (hi' : l[i']? = some a) : i = i' :=
  (List.getElem?_inj (List.getElem?_eq_some_iff.mp hi).1 hl).mp (hi.trans hi'.symm)

theorem eq_map_idxOf [DecidableEq ι] {l : List ι} (hl : l.Nodup) {rows : List (Option α)}
    (hlength : rows.length = l.length) : rows = l.map fun a => (rows[l.idxOf a]?).join := by
  apply List.ext_getElem?
  intro i
  by_cases hi : i < l.length
  · have hrow : i < rows.length := by omega
    simp [hi,hrow,hl.idxOf_getElem i hi]
  · have hrow : rows.length ≤ i := by omega
    simp [hi,hrow]

theorem Precedes.asymm {l : List ι} (hl : l.Nodup) {a b : ι} (hab : Precedes l a b) :
    ¬ Precedes l b a := by
  rintro ⟨j,_,i,hij,hi,hj⟩
  obtain ⟨j',_,i',hij',hi',hj'⟩ := hab
  have h₁ : i = j' := index_unique hl hi hj'
  have h₂ : i' = j := index_unique hl hi' hj
  omega

theorem filter_eq_filter {keep : ι → Bool} {before after : List ι} (hb : before.Nodup)
    (ha : after.Nodup) (hmem : ∀ a, keep a = true → (a ∈ before ↔ a ∈ after))
    (horder : ∀ a b, keep a = true → keep b = true → Precedes before a b → Precedes after a b) :
    before.filter keep = after.filter keep := by
  have hperm : (before.filter keep).Perm (after.filter keep) := by
    rw [List.perm_ext_iff_of_nodup (hb.filter _) (ha.filter _)]
    intro a
    simp only [List.mem_filter]
    exact and_congr_left (hmem a)
  have hbefore : (before.filter keep).Pairwise (Precedes after) := by
    apply ((pairwise_precedes before).filter keep).imp_of_mem
    intro a b hka hkb hab
    exact horder a b (List.mem_filter.mp hka).2 (List.mem_filter.mp hkb).2 hab
  have hafter : (after.filter keep).Pairwise (Precedes after) := (pairwise_precedes after).filter keep
  exact hperm.eq_of_pairwise (fun a b _ _ hab hba => absurd hba (hab.asymm ha)) hbefore hafter

theorem marks_nil {keep : ι → Bool} {l : List ι} (h : ∀ a ∈ l, keep a = true) : Marks [] keep l := by
  intro i
  simp only [List.not_mem_nil,false_iff]
  rintro ⟨a,ha,hkeep⟩
  simp [h a (List.mem_of_getElem? ha)] at hkeep

theorem marks_singleton {keep : ι → Bool} {l r : List ι} {a : ι} (hl : ∀ b ∈ l, keep b = true)
    (hr : ∀ b ∈ r, keep b = true) (ha : keep a = false) : Marks [l.length] keep (l++a::r) := by
  intro i
  rw [List.mem_singleton]
  constructor
  · intro hi
    exact ⟨a,by simp [hi],ha⟩
  · rintro ⟨b,hb,hkeep⟩
    rcases Nat.lt_trichotomy i l.length with hlt | heq | hgt
    · rw [List.getElem?_append_left hlt] at hb
      simp [hl b (List.mem_of_getElem? hb)] at hkeep
    · exact heq
    · obtain ⟨k,hk⟩ : ∃ k, i-l.length = k+1 := ⟨i-l.length-1,by omega⟩
      rw [List.getElem?_append_right hgt.le,hk,List.getElem?_cons_succ] at hb
      simp [hr b (List.mem_of_getElem? hb)] at hkeep

def kept (rows : List α) : List (α × Bool) := rows.map fun a => (a,true)

theorem keep_kept (rows : List α) : ∀ x ∈ kept rows, x.2 = true := by
  simp [kept]

theorem map_kept (rows : List α) : (kept rows).map Prod.fst = rows := by
  simp [kept,Function.comp_def]

theorem endUpdates_append (rows : List α) (a : α) :
    (RowOps.mk [] [rows.length]).endUpdates (rows++[a]) rows = some (rows++[a]) := by
  have hins : Marks [rows.length] Prod.snd (kept rows++[(a,false)]) := by
    have := marks_singleton (keep_kept rows) (r := []) (a := (a,false)) (by simp) rfl
    rwa [kept,List.length_map] at this
  have hfilter : (kept rows).filter Prod.snd = (kept rows++[(a,false)]).filter Prod.snd := by
    simp [List.filter_append]
  have hupdate : (RowOps.mk [] [rows.length]).endUpdates ((kept rows++[(a,false)]).map Prod.fst)
      ((kept rows).map Prod.fst) = _ :=
    endUpdates_map Prod.fst Prod.fst (marks_nil (keep_kept rows)) hins hfilter
  simpa only [List.map_append,map_kept,ite_self,List.map_cons,List.map_nil] using hupdate

theorem endUpdates_down (above below : List α) (a b : α) :
    (RowOps.mk [above.length] [above.length+1]).endUpdates (above++b::a::below)
      (above++a::b::below) = some (above++b::a::below) := by
  have hdel : Marks [above.length] Prod.snd (kept above++(a,false)::(b,true)::kept below) := by
    have := marks_singleton (keep_kept above) (r := (b,true)::kept below) (a := (a,false))
      (by simpa using keep_kept below) rfl
    rwa [kept,List.length_map] at this
  have hins : Marks [above.length+1] Prod.snd (kept above++(b,true)::(a,false)::kept below) := by
    have := marks_singleton (l := kept above++[(b,true)]) (r := kept below) (a := (a,false))
      (by simpa using keep_kept above) (keep_kept below) rfl
    simpa [kept] using this
  have hfilter : (kept above++(a,false)::(b,true)::kept below).filter Prod.snd =
      (kept above++(b,true)::(a,false)::kept below).filter Prod.snd := by
    simp [List.filter_append]
  have hupdate : (RowOps.mk [above.length] [above.length+1]).endUpdates
      ((kept above++(b,true)::(a,false)::kept below).map Prod.fst)
      ((kept above++(a,false)::(b,true)::kept below).map Prod.fst) = _ :=
    endUpdates_map Prod.fst Prod.fst hdel hins hfilter
  simpa only [List.map_append,map_kept,ite_self,List.map_cons] using hupdate

end RowOps

/-! ### Moves -/

/-- The row operations of a block in which rows are also moved, from an old index to a new one. -/
structure MoveOps extends RowOps where
  moves : List (ℕ × ℕ)
  deriving DecidableEq

namespace MoveOps

variable {α : Type*}

/-- A moved row enters as it was; the data source is not asked for it. -/
def entering (ops : MoveOps) (source rows : List α) : List α :=
  source.zipIdx.map fun x =>
    match ops.moves.find? fun move => move.2 = x.2 with
    | some move => rows[move.1]?.getD x.1
    | none => x.1

/-- A move is a deletion at its old index and an insertion at its new one. -/
def endUpdates (ops : MoveOps) (source rows : List α) : Option (List α) :=
  (RowOps.mk (ops.deletes++ops.moves.map Prod.fst) (ops.inserts++ops.moves.map Prod.snd)).endUpdates
    (ops.entering source rows) rows

/-- Moves that agree with the data source bring in what it would have shown. -/
theorem entering_eq {ops : MoveOps} {source rows : List α}
    (h : ∀ move ∈ ops.moves, source[move.2]? = rows[move.1]?) : ops.entering source rows = source := by
  conv_rhs => rw [← List.zipIdx_map_fst 0 source]
  apply List.map_congr_left
  intro x hx
  cases hmove : ops.moves.find? fun move => move.2 = x.2 with
  | none => rfl
  | some move =>
    have hindex : move.2 = x.2 := by simpa using List.find?_some hmove
    have hrow := h move (List.mem_of_find?_eq_some hmove)
    rw [hindex,List.mem_zipIdx_iff_getElem?.mp hx] at hrow
    simp [← hrow]

theorem endUpdates_append (rows : List α) (a : α) :
    (MoveOps.mk ⟨[],[rows.length]⟩ []).endUpdates (rows++[a]) rows = some (rows++[a]) := by
  rw [endUpdates,entering_eq (by simp)]
  exact RowOps.endUpdates_append rows a

/-- Moving a row down by one exchanges it with the row below. -/
theorem endUpdates_exchange (above below : List α) (a b : α) :
    (MoveOps.mk ⟨[],[]⟩ [(above.length,above.length+1)]).endUpdates (above++b::a::below)
      (above++a::b::below) = some (above++b::a::below) := by
  rw [endUpdates,entering_eq (by simp)]
  exact RowOps.endUpdates_down above below a b

end MoveOps
end CourseraObjC
