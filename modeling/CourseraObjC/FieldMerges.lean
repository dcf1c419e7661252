import CourseraObjC.FieldOperations
import CourseraObjC.Numbers
import Mathlib.Algebra.Group.Nat.Defs

/-! An operation on a field and the one that came before it, as one operation. The two are
merged in the changes that wait to be saved while the field shows what they make of its value
one after the other: the merged operation has to come to the same. -/
namespace CourseraObjC
namespace FieldOperation

variable {ν α : Type} [DecidableEq α] {E : Elements α} [Add ν]
variable {o p n m : FieldOperation ν α} {v v' w x : Option (FieldValue ν α)}

theorem applyToValue_congr (halike : Alike E v v') (ho : o.applyToValue E v = .ok w) :
    ∃ w', o.applyToValue E v' = .ok w' ∧ Alike E w w' := by
  by_cases hv : ∃ objects, v = some (.array objects)
  · obtain ⟨oldValue,rfl⟩ := hv
    obtain ⟨oldValue',rfl,hsim⟩ := alike_array.mp halike
    cases o with
    | set value =>
      obtain rfl := Except.ok.inj ho
      exact ⟨_,rfl,Alike.refl _⟩
    | delete =>
      obtain rfl := Except.ok.inj ho
      exact ⟨_,rfl,Alike.refl _⟩
    | increment amount => simp [applyToValue] at ho
    | add objects =>
      obtain rfl := Except.ok.inj ho
      exact ⟨_,rfl,hsim.append (Upserts.Similar.refl objects)⟩
    | addUnique objects =>
      obtain rfl := Except.ok.inj ho
      refine ⟨_,rfl,?_⟩
      rw [addUniqueObjects_eq_upsertAll,addUniqueObjects_eq_upsertAll]
      exact hsim.upsertAll (Upserts.Similar.refl objects)
    | remove objects =>
      obtain rfl := Except.ok.inj ho
      refine ⟨_,rfl,?_⟩
      rw [removeObjects_eq_removeAll,removeObjects_eq_removeAll]
      exact hsim.removeAll objects
    | relation c a r => simp [applyToValue] at ho
  · obtain rfl := (alike_eq (fun objects hv' => hv ⟨objects,hv'⟩)).mp halike
    exact ⟨w,ho,Alike.refl w⟩

theorem merge_increment [DecidableEq ν] {amount : ν}
    (hm : mergeWithPrevious E (.increment amount) (some p) = .ok m)
    (hv : p.applyToValue E v = .ok w) (hw : applyToValue E (.increment amount) w = .ok x) :
    (∃ y, m.applyToValue E v = .ok y ∧ Alike E y x) ↔
      mergeDiffers p (.increment amount) v = false := by
  cases p with
  | delete =>
    obtain rfl := Except.ok.inj hm
    obtain rfl := Except.ok.inj hv
    exact iff_of_true ⟨x,hw,Alike.refl x⟩ rfl
  | set value =>
    obtain rfl := Except.ok.inj hv
    cases value with
    | number oldValue =>
      obtain rfl := Except.ok.inj hm
      exact iff_of_true ⟨x,hw,Alike.refl x⟩ rfl
    | array objects => simp [mergeWithPrevious] at hm
    | relation c known => simp [mergeWithPrevious] at hm
    | other y => simp [mergeWithPrevious] at hm
  | increment previous =>
    obtain rfl := Except.ok.inj hm
    cases v with
    | none =>
      obtain rfl := Except.ok.inj hv
      exact iff_of_true ⟨x,hw,Alike.refl x⟩ rfl
    | some value =>
      cases value with
      | number oldValue =>
        obtain rfl := Except.ok.inj hv
        obtain rfl := Except.ok.inj hw
        simp [applyToValue,mergeDiffers,Alike,AlikeValues]
      | array objects => simp [applyToValue] at hv
      | relation c known => simp [applyToValue] at hv
      | other y => simp [applyToValue] at hv
  | add objects => simp [mergeWithPrevious] at hm
  | addUnique objects => simp [mergeWithPrevious] at hm
  | remove objects => simp [mergeWithPrevious] at hm
  | relation c a r => simp [mergeWithPrevious] at hm

theorem merge_add {objects : List α}
    (hm : mergeWithPrevious E (.add objects) (some p) = .ok m)
    (hv : p.applyToValue E v = .ok w) (hw : applyToValue E (.add objects) w = .ok x) :
    m.applyToValue E v = .ok x := by
  cases p with
  | delete =>
    obtain rfl := Except.ok.inj hm
    obtain rfl := Except.ok.inj hv
    exact hw
  | set value =>
    obtain rfl := Except.ok.inj hv
    cases value with
    | array oldArray =>
      obtain rfl := Except.ok.inj hm
      exact hw
    | number k => simp [mergeWithPrevious] at hm
    | relation c known => simp [mergeWithPrevious] at hm
    | other y => simp [mergeWithPrevious] at hm
  | add previous =>
    obtain rfl := Except.ok.inj hm
    cases v with
    | none =>
      obtain rfl := Except.ok.inj hv
      exact hw
    | some value =>
      cases value with
      | array oldValue =>
        obtain rfl := Except.ok.inj hv
        rw [applyToValue,List.append_assoc] at hw
        exact hw
      | number k => simp [applyToValue] at hv
      | relation c known => simp [applyToValue] at hv
      | other y => simp [applyToValue] at hv
  | increment amount => simp [mergeWithPrevious] at hm
  | addUnique previous => simp [mergeWithPrevious] at hm
  | remove previous => simp [mergeWithPrevious] at hm
  | relation c a r => simp [mergeWithPrevious] at hm

/-- The merged set is enumerated in an order of its own. -/
theorem similar_allObjects {objects : List α} (hnd : (objects.map (identity E)).Nodup) :
    Upserts.Similar (identity E) (E.allObjects objects) objects := by
  have hperm := E.allObjects_perm objects
  rw [List.dedup_eq_self.mpr (List.Nodup.of_map _ hnd)] at hperm
  exact (Upserts.similar_of_perm hnd hperm.symm).symm

theorem merge_addUnique {objects : List α} (hp : DistinctObjects E p)
    (hm : mergeWithPrevious E (.addUnique objects) (some p) = .ok m)
    (hv : p.applyToValue E v = .ok w) (hw : applyToValue E (.addUnique objects) w = .ok x) :
    ∃ y, m.applyToValue E v = .ok y ∧ Alike E y x := by
  cases p with
  | delete =>
    obtain rfl := Except.ok.inj hm
    obtain rfl := Except.ok.inj hv
    exact ⟨x,hw,Alike.refl x⟩
  | set value =>
    obtain rfl := Except.ok.inj hv
    cases value with
    | array oldArray =>
      obtain rfl := Except.ok.inj hm
      exact ⟨x,hw,Alike.refl x⟩
    | number k => simp [mergeWithPrevious] at hm
    | relation c known => simp [mergeWithPrevious] at hm
    | other y => simp [mergeWithPrevious] at hm
  | addUnique previous =>
    obtain rfl := Except.ok.inj hm
    have hnd : ((addUniqueObjects E objects previous).map (identity E)).Nodup := by
      rw [addUniqueObjects_eq_upsertAll]
      exact Upserts.nodup_upsertAll objects hp
    have hset := similar_allObjects hnd
    cases v with
    | none =>
      obtain rfl := Except.ok.inj hv
      obtain rfl := Except.ok.inj hw
      exact ⟨_,rfl,hset⟩
    | some value =>
      cases value with
      | array oldValue =>
        obtain rfl := Except.ok.inj hv
        obtain rfl := Except.ok.inj hw
        refine ⟨_,rfl,?_⟩
        have hall := (Upserts.Similar.refl oldValue).upsertAll hset
        rw [addUniqueObjects_eq_upsertAll objects] at hall
        have hrounds := hall.trans (Upserts.upsertAll_upsertAll oldValue objects hp)
        simp only [← addUniqueObjects_eq_upsertAll] at hrounds
        exact hrounds
      | number k => simp [applyToValue] at hv
      | relation c known => simp [applyToValue] at hv
      | other y => simp [applyToValue] at hv
  | increment amount => simp [mergeWithPrevious] at hm
  | add previous => simp [mergeWithPrevious] at hm
  | remove previous => simp [mergeWithPrevious] at hm
  | relation c a r => simp [mergeWithPrevious] at hm

/-- On a value, two passes of removals are one. Without a value, the first pass leaves its
own objects and the second removes from them, but both at once would leave them all. -/
theorem merge_remove [DecidableEq ν] {objects : List α}
    (hm : mergeWithPrevious E (.remove objects) (some p) = .ok m)
    (hv : p.applyToValue E v = .ok w) (hw : applyToValue E (.remove objects) w = .ok x) :
    (∃ y, m.applyToValue E v = .ok y ∧ Alike E y x) ↔ mergeDiffers p (.remove objects) v = false := by
  cases p with
  | delete => simp [mergeWithPrevious] at hm
  | set value =>
    obtain rfl := Except.ok.inj hv
    cases value with
    | array oldArray =>
      obtain rfl := Except.ok.inj hm
      exact iff_of_true ⟨x,hw,Alike.refl x⟩ rfl
    | number k => simp [mergeWithPrevious] at hm
    | relation c known => simp [mergeWithPrevious] at hm
    | other y => simp [mergeWithPrevious] at hm
  | remove previous =>
    obtain rfl := Except.ok.inj hm
    cases v with
    | none =>
      obtain rfl := Except.ok.inj hv
      obtain rfl := Except.ok.inj hw
      rw [removeObjects_eq_removeAll]
      cases objects with
      | nil =>
        refine iff_of_true ⟨_,rfl,?_⟩ rfl
        rw [List.append_nil,Upserts.removeAll]
        simp [Alike,AlikeValues,Upserts.Similar.refl]
      | cons y ys =>
        refine iff_of_false ?_ (by simp [mergeDiffers])
        rintro ⟨z,hz,halike⟩
        obtain rfl := Except.ok.inj hz
        exact Upserts.not_similar_removeAll (List.cons_ne_nil y ys) halike
    | some value =>
      cases value with
      | array oldValue =>
        obtain rfl := Except.ok.inj hv
        refine iff_of_true ⟨_,rfl,?_⟩ rfl
        rw [applyToValue] at hw
        obtain rfl := Except.ok.inj hw
        simp only [removeObjects_eq_removeAll,Upserts.removeAll_removeAll]
        exact Alike.refl _
      | number k => simp [applyToValue] at hv
      | relation c known => simp [applyToValue] at hv
      | other y => simp [applyToValue] at hv
  | increment amount => simp [mergeWithPrevious] at hm
  | add previous => simp [mergeWithPrevious] at hm
  | addUnique previous => simp [mergeWithPrevious] at hm
  | relation c a r => simp [mergeWithPrevious] at hm

theorem relation_rounds (known a a' r r' : Finset α) :
    (known∪(a∪a')) \ ((r \ a')∪r') = ((((known∪a) \ r)∪a') \ r') := by
  ext y
  simp only [Finset.mem_sdiff,Finset.mem_union]
  tauto

theorem merge_relation {c : Option String} {a r : Finset α}
    (hm : mergeWithPrevious E (.relation c a r) (some p) = .ok m)
    (hv : p.applyToValue E v = .ok w) (hw : applyToValue E (.relation c a r) w = .ok x) :
    m.applyToValue E v = .ok x := by
  cases p with
  | relation c' a' r' =>
    rw [mergeWithPrevious] at hm
    split_ifs at hm with hclass
    obtain rfl := Except.ok.inj hm
    rw [not_and_or,not_not,not_not] at hclass
    cases v with
    | none =>
      obtain rfl := Except.ok.inj hv
      rw [applyToValue] at hw
      split_ifs at hw with hraise
      obtain rfl := Except.ok.inj hw
      have hor : c'.or c = c := by
        rcases hclass with rfl | rfl
        · rfl
        · exact Option.or_self
      rw [applyToValue,relation_rounds,hor]
    | some value =>
      cases value with
      | relation oldClass known =>
        rw [applyToValue] at hv
        split_ifs at hv with hraise
        obtain rfl := Except.ok.inj hv
        rw [applyToValue] at hw
        split_ifs at hw with hraise'
        obtain rfl := Except.ok.inj hw
        have hor : (oldClass.or c').or c = oldClass.or c := by
          rcases hclass with rfl | rfl
          · rw [Option.or_none]
          · rw [Option.or_assoc,Option.or_self]
        have hfits : ¬(c ≠ none ∧ oldClass ≠ none ∧ oldClass ≠ c) := by
          rintro ⟨hc,hold,hne⟩
          apply hraise'
          cases oldClass with
          | none => exact absurd rfl hold
          | some d => exact ⟨hc,by simp,hne⟩
        rw [applyToValue,if_neg hfits,relation_rounds,hor]
      | number k => simp [applyToValue] at hv
      | array objects => simp [applyToValue] at hv
      | other y => simp [applyToValue] at hv
  | set value => simp [mergeWithPrevious] at hm
  | delete => simp [mergeWithPrevious] at hm
  | increment amount => simp [mergeWithPrevious] at hm
  | add previous => simp [mergeWithPrevious] at hm
  | addUnique previous => simp [mergeWithPrevious] at hm
  | remove previous => simp [mergeWithPrevious] at hm

/-- Where an operation and the one after it apply one by one and merge into one, that one
makes the same of the value, up to the order between different elements of an array, exactly
unless it removes for the second time from a field that has no value, or sums up differently. -/
theorem applyToValue_merge [DecidableEq ν] (hp : DistinctObjects E p)
    (hm : n.mergeWithPrevious E (some p) = .ok m)
    (hv : p.applyToValue E v = .ok w) (hw : n.applyToValue E w = .ok x) :
    (∃ y, m.applyToValue E v = .ok y ∧ Alike E y x) ↔ mergeDiffers p n v = false := by
  have hexact : m.applyToValue E v = .ok x → (∃ y, m.applyToValue E v = .ok y ∧ Alike E y x) :=
    fun h => ⟨x,h,Alike.refl x⟩
  cases n with
  | set value =>
    obtain rfl := Except.ok.inj hm
    exact iff_of_true (hexact hw) (by cases p with | _ => rfl)
  | delete =>
    obtain rfl := Except.ok.inj hm
    exact iff_of_true (hexact hw) (by cases p with | _ => rfl)
  | increment amount => exact merge_increment hm hv hw
  | add objects =>
    exact iff_of_true (hexact (merge_add hm hv hw)) (by cases p with | _ => rfl)
  | addUnique objects =>
    exact iff_of_true (merge_addUnique hp hm hv hw) (by cases p with | _ => rfl)
  | remove objects => exact merge_remove hm hv hw
  | relation c a r =>
    exact iff_of_true (hexact (merge_relation hm hv hw)) (by cases p with | _ => rfl)

/-- Two increments of a half, by a half and by the integer 1: one after the other they make 2. -/
example : mergeDiffers (.increment ⟨.double,1/2⟩ : FieldOperation NSNumber ℕ) (.increment ⟨.int,1⟩)
    (some (.number ⟨.double,1/2⟩)) = true := by decide +kernel

theorem merge_eq_addUnique {objects : List α}
    (hm : n.mergeWithPrevious E (some p) = .ok (.addUnique objects)) :
    ∃ new old, n = .addUnique new ∧ p = .addUnique old ∧
      objects = E.allObjects (addUniqueObjects E new old) := by
  cases n with
  | addUnique new =>
    cases p with
    | addUnique old =>
      have hobjects := Except.ok.inj hm
      exact ⟨new,old,rfl,rfl,(FieldOperation.addUnique.inj hobjects).symm⟩
    | set value =>
      cases value with
      | _ => simp [mergeWithPrevious] at hm
    | _ => simp [mergeWithPrevious] at hm
  | relation c a r =>
    cases p with
    | relation c' a' r' =>
      rw [mergeWithPrevious] at hm
      split_ifs at hm
      simp at hm
    | _ => simp [mergeWithPrevious] at hm
  | _ =>
    cases p with
    | set value =>
      cases value with
      | _ => simp [mergeWithPrevious] at hm
    | _ => simp [mergeWithPrevious] at hm

theorem distinctObjects_merge (hp : DistinctObjects E p)
    (hm : n.mergeWithPrevious E (some p) = .ok m) : DistinctObjects E m := by
  cases m with
  | addUnique objects =>
    obtain ⟨new,old,rfl,rfl,rfl⟩ := merge_eq_addUnique hm
    have hnd : ((addUniqueObjects E new old).map (identity E)).Nodup := by
      rw [addUniqueObjects_eq_upsertAll]
      exact Upserts.nodup_upsertAll new hp
    have hperm := E.allObjects_perm (addUniqueObjects E new old)
    rw [List.dedup_eq_self.mpr (List.Nodup.of_map _ hnd)] at hperm
    exact (hperm.map (identity E)).nodup_iff.mpr hnd
  | _ => trivial

/-- The pairs of operations that do not merge though both may apply, one after the other. -/
def clashes : FieldOperation ν α → FieldOperation ν α → Bool
  | .add _, .addUnique _ => true
  | .add _, .remove _ => true
  | .addUnique _, .add _ => true
  | .addUnique _, .remove _ => true
  | .remove _, .delete => true
  | .remove _, .add _ => true
  | .remove _, .addUnique _ => true
  | .relation .., .delete => true
  | .relation .., .set _ => true
  | .relation none _ _, .relation (some _) _ _ => true
  | _, _ => false

def Leaves : FieldOperation ν α → Option (FieldValue ν α) → Prop
  | .set value, w => w = some value
  | .delete, w => w = none
  | .increment _, w => ∃ k, w = some (.number k)
  | .add _, w => ∃ objects, w = some (.array objects)
  | .addUnique _, w => ∃ objects, w = some (.array objects)
  | .remove _, w => ∃ objects, w = some (.array objects)
  | .relation c _ _, w => ∃ d known, w = some (.relation d known) ∧ (c ≠ none → d = c)

theorem leaves_of_applyToValue (hv : p.applyToValue E v = .ok w) : Leaves p w := by
  cases p with
  | set value => exact (Except.ok.inj hv).symm
  | delete => exact (Except.ok.inj hv).symm
  | increment amount =>
    cases v with
    | none => exact ⟨_,(Except.ok.inj hv).symm⟩
    | some value =>
      cases value with
      | number k => exact ⟨_,(Except.ok.inj hv).symm⟩
      | _ => simp [applyToValue] at hv
  | relation c a r =>
    cases v with
    | none => exact ⟨_,_,(Except.ok.inj hv).symm,fun _ => rfl⟩
    | some value =>
      cases value with
      | relation d known =>
        rw [applyToValue] at hv
        split_ifs at hv with hraise
        refine ⟨_,_,(Except.ok.inj hv).symm,fun hc => ?_⟩
        cases d with
        | none => exact Option.none_or
        | some e =>
          by_contra hne
          exact hraise ⟨hc,by simp,hne⟩
      | _ => simp [applyToValue] at hv
  | _ =>
    cases v with
    | none => exact ⟨_,(Except.ok.inj hv).symm⟩
    | some value =>
      cases value with
      | array oldValue => exact ⟨_,(Except.ok.inj hv).symm⟩
      | _ => simp [applyToValue] at hv

theorem merges_increment {amount : ν} (hp : Leaves p w)
    (hw : applyToValue E (.increment amount) w = .ok x) :
    (∃ m, mergeWithPrevious E (.increment amount) (some p) = .ok m) ∧
      clashes (.increment amount) p = false := by
  cases p with
  | set value =>
    obtain rfl := hp
    cases value with
    | number k => exact ⟨⟨_,rfl⟩,rfl⟩
    | _ => simp [applyToValue] at hw
  | delete => exact ⟨⟨_,rfl⟩,rfl⟩
  | increment previous => exact ⟨⟨_,rfl⟩,rfl⟩
  | relation c a r =>
    obtain ⟨d,known,rfl,_⟩ := hp
    simp [applyToValue] at hw
  | _ =>
    obtain ⟨objects,rfl⟩ := hp
    simp [applyToValue] at hw

theorem leaves_array (hn : (∃ objects, n = .add objects) ∨ (∃ objects, n = .addUnique objects) ∨
    ∃ objects, n = .remove objects) (hw : n.applyToValue E w = .ok x) :
    w = none ∨ ∃ objects, w = some (.array objects) := by
  cases w with
  | none => exact Or.inl rfl
  | some value =>
    cases value with
    | array objects => exact Or.inr ⟨objects,rfl⟩
    | _ => rcases hn with ⟨objects,rfl⟩ | ⟨objects,rfl⟩ | ⟨objects,rfl⟩ <;>
        simp [applyToValue] at hw

theorem merges_array (hp : Leaves p w)
    (hn : (∃ objects, n = .add objects) ∨ (∃ objects, n = .addUnique objects) ∨
      ∃ objects, n = .remove objects) (hw : n.applyToValue E w = .ok x) :
    (∃ m, n.mergeWithPrevious E (some p) = .ok m) ↔ clashes n p = false := by
  have harray := leaves_array hn hw
  cases p with
  | set value =>
    obtain rfl := hp
    obtain ⟨objects,hobjects⟩ := harray.resolve_left (by simp)
    obtain rfl := Option.some.inj hobjects
    rcases hn with ⟨new,rfl⟩ | ⟨new,rfl⟩ | ⟨new,rfl⟩ <;>
      simp [mergeWithPrevious,clashes]
  | increment amount =>
    obtain ⟨k,rfl⟩ := hp
    simp at harray
  | relation c a r =>
    obtain ⟨d,known,rfl,_⟩ := hp
    simp at harray
  | _ =>
    rcases hn with ⟨new,rfl⟩ | ⟨new,rfl⟩ | ⟨new,rfl⟩ <;>
      simp [mergeWithPrevious,clashes]

theorem merges_relation {c : Option String} {a r : Finset α} (hp : Leaves p w)
    (hw : applyToValue E (.relation c a r) w = .ok x) :
    (∃ m, mergeWithPrevious E (.relation c a r) (some p) = .ok m) ↔
      clashes (.relation c a r) p = false := by
  cases p with
  | set value => simp [mergeWithPrevious,clashes]
  | delete => simp [mergeWithPrevious,clashes]
  | increment amount =>
    obtain ⟨k,rfl⟩ := hp
    simp [applyToValue] at hw
  | relation c' a' r' =>
    obtain ⟨d,known,rfl,hd⟩ := hp
    rw [applyToValue] at hw
    split_ifs at hw with hraise
    cases c' with
    | none => cases c with
      | _ => simp [mergeWithPrevious,clashes]
    | some e =>
      obtain rfl := hd (by simp)
      cases c with
      | none => simp [mergeWithPrevious,clashes]
      | some f =>
        have hef : some e = some f := by
          by_contra hne
          exact hraise ⟨by simp,by simp,hne⟩
        obtain rfl := Option.some.inj hef
        simp [mergeWithPrevious,clashes]
  | _ =>
    obtain ⟨objects,rfl⟩ := hp
    simp [applyToValue] at hw

theorem merges_iff (hv : p.applyToValue E v = .ok w) (hw : n.applyToValue E w = .ok x) :
    (∃ m, n.mergeWithPrevious E (some p) = .ok m) ↔ clashes n p = false := by
  have hp := leaves_of_applyToValue hv
  cases n with
  | set value => exact iff_of_true ⟨_,rfl⟩ (by cases p with | _ => rfl)
  | delete => exact iff_of_true ⟨_,rfl⟩ (by cases p with | _ => rfl)
  | increment amount =>
    obtain ⟨hmerges,hclash⟩ := merges_increment hp hw
    exact iff_of_true hmerges hclash
  | add objects => exact merges_array hp (Or.inl ⟨objects,rfl⟩) hw
  | addUnique objects => exact merges_array hp (Or.inr (Or.inl ⟨objects,rfl⟩)) hw
  | remove objects => exact merges_array hp (Or.inr (Or.inr ⟨objects,rfl⟩)) hw
  | relation c a r => exact merges_relation hp hw

/-- Of two operations that apply one after the other, the second merges into the first exactly
unless they clash. What they merge into makes the same of the value, up to the order between
different elements of an array, exactly unless both remove from a field without a value or
increment a number to a sum that depends on the order of the additions. -/
theorem merged_applies_as_both [DecidableEq ν] (hp : DistinctObjects E p)
    (hv : p.applyToValue E v = .ok w)
    (hw : n.applyToValue E w = .ok x) :
    ((∃ m, n.mergeWithPrevious E (some p) = .ok m) ↔ clashes n p = false) ∧
      ∀ m, n.mergeWithPrevious E (some p) = .ok m →
        ((∃ y, m.applyToValue E v = .ok y ∧ Alike E y x) ↔ mergeDiffers p n v = false) :=
  ⟨merges_iff hv hw,fun _ hm => applyToValue_merge hp hm hv hw⟩

/-- Two unions into a set, of which the second brings one new element. -/
theorem merged_applies_as_both_addUnique :
    ∃ m : FieldOperation ℕ ℕ,
      mergeWithPrevious (.unsaved ℕ) (.addUnique [2,3]) (some (.addUnique [1,2])) = .ok m ∧
      ∃ y, m.applyToValue (.unsaved ℕ) (some (.array [5,1])) = .ok y ∧
        Alike (.unsaved ℕ) y (some (.array [5,1,2,3])) := by
  have h := merged_applies_as_both (E := .unsaved ℕ) (p := (.addUnique [1,2] : FieldOperation ℕ ℕ))
    (n := .addUnique [2,3]) (v := some (.array [5,1])) (w := some (.array [5,1,2]))
    (x := some (.array [5,1,2,3])) (by decide) (by decide) (by decide)
  obtain ⟨m,hm⟩ := h.1.mpr rfl
  exact ⟨m,hm,(h.2 m hm).mpr rfl⟩

end FieldOperation
end CourseraObjC
