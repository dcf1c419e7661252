import Mathlib.Data.List.AList
import CourseraObjC.Runs

/-! Dictionaries that are rewritten key by key: a pass over the entries of one dictionary
changes, for each of its keys, what another one has there, and may fail at any of them. The
order of the entries has no say in the outcome. -/
namespace CourseraObjC

universe u

abbrev Dictionary (κ α : Type*) := AList fun _ : κ => α

namespace Dictionary

variable {κ α β χ : Type u} [DecidableEq κ]

/-- To put no value under a key is to remove the key. -/
def put (k : κ) (v : Option α) (d : Dictionary κ α) : Dictionary κ α :=
  match v with
  | some a => d.insert k a
  | none => d.erase k

theorem lookup_put (j k : κ) (v : Option α) (d : Dictionary κ α) :
    (d.put k v).lookup j = if j = k then v else d.lookup j := by
  by_cases hj : j = k
  · subst hj
    cases v with
    | none => simp [put]
    | some a => simp [put]
  · cases v with
    | none => simp [put,hj,AList.lookup_erase_ne hj]
    | some a => simp [put,hj,AList.lookup_insert_ne hj]

@[simp] theorem lookup_put_self (k : κ) (v : Option α) (d : Dictionary κ α) :
    (d.put k v).lookup k = v := by
  rw [lookup_put,if_pos rfl]

theorem lookup_put_ne {j k : κ} (h : j ≠ k) (v : Option α) (d : Dictionary κ α) :
    (d.put k v).lookup j = d.lookup j := by
  rw [lookup_put,if_neg h]

/-- All values changed at once, each under its key. -/
def mapValues (f : α → β) (d : Dictionary κ α) : Dictionary κ β where
  entries := d.entries.map (Sigma.map id fun _ => f)
  nodupKeys := d.nodupKeys.map₂ (fun _ => f) d.entries

@[simp] theorem lookup_mapValues (f : α → β) (d : Dictionary κ α) (k : κ) :
    (d.mapValues f).lookup k = (d.lookup k).map f :=
  List.dlookup_map₂ (f := fun _ => f) k

/-- Nothing where there is nothing to do, else one rewriting. -/
def rewriteSlot (f : β → Option α → Except χ (Option α)) : Option β → Option α →
    Except χ (Option α)
  | none, v => .ok v
  | some b, v => f b v

def rewriteEntries (f : β → Option α → Except χ (Option α)) (changes : List (Sigma fun _ : κ => β))
    (d : Dictionary κ α) : Except χ (Dictionary κ α) :=
  changes.foldlM (fun d e => do return d.put e.1 (← f e.2 (d.lookup e.1))) d

def rewrite (f : β → Option α → Except χ (Option α)) (changes : Dictionary κ β)
    (d : Dictionary κ α) : Except χ (Dictionary κ α) := rewriteEntries f changes.entries d

variable {f : β → Option α → Except χ (Option α)}

theorem rewriteEntries_cons_eq_ok {e : Sigma fun _ : κ => β}
    {changes : List (Sigma fun _ : κ => β)} {d d' : Dictionary κ α} :
    rewriteEntries f (e::changes) d = .ok d' ↔
      ∃ v, f e.2 (d.lookup e.1) = .ok v ∧ rewriteEntries f changes (d.put e.1 v) = .ok d' := by
  rw [rewriteEntries,List.foldlM_cons,Runs.bind_eq_ok]
  constructor
  · rintro ⟨a,ha,hrest⟩
    obtain ⟨v,hv,hput⟩ := Runs.bind_eq_ok.mp ha
    obtain rfl : d.put e.1 v = a := Except.ok.inj hput
    exact ⟨v,hv,hrest⟩
  · rintro ⟨v,hv,hrest⟩
    exact ⟨d.put e.1 v,Runs.bind_eq_ok.mpr ⟨v,hv,rfl⟩,hrest⟩

theorem rewriteEntries_lookup {changes : List (Sigma fun _ : κ => β)} (hnd : changes.NodupKeys)
    {d d' : Dictionary κ α} (h : rewriteEntries f changes d = .ok d') (k : κ) :
    rewriteSlot f (changes.dlookup k) (d.lookup k) = .ok (d'.lookup k) := by
  induction changes generalizing d with
  | nil =>
    obtain rfl : d = d' := Except.ok.inj h
    simp [rewriteSlot]
  | cons e changes ih =>
    obtain ⟨j,b⟩ := e
    obtain ⟨v,hv,hrest⟩ := rewriteEntries_cons_eq_ok.mp h
    rw [List.nodupKeys_cons] at hnd
    have hih := ih hnd.2 hrest
    by_cases hk : k = j
    · subst hk
      have hnone : changes.dlookup k = none := List.dlookup_eq_none.mpr hnd.1
      rw [hnone,lookup_put_self] at hih
      rw [List.dlookup_cons_eq]
      obtain rfl : v = d'.lookup k := Except.ok.inj hih
      exact hv
    · rw [lookup_put_ne hk] at hih
      rw [List.dlookup_cons_ne _ _ (by simpa using hk)]
      exact hih

/-- What a pass leaves under a key depends on what both dictionaries had under it. -/
theorem rewrite_lookup {changes : Dictionary κ β} {d d' : Dictionary κ α}
    (h : rewrite f changes d = .ok d') (k : κ) :
    rewriteSlot f (changes.lookup k) (d.lookup k) = .ok (d'.lookup k) :=
  rewriteEntries_lookup changes.nodupKeys h k

theorem rewriteEntries_ok {changes : List (Sigma fun _ : κ => β)} (hnd : changes.NodupKeys)
    {d : Dictionary κ α}
    (h : ∀ k, ∃ v, rewriteSlot f (changes.dlookup k) (d.lookup k) = .ok v) :
    ∃ d', rewriteEntries f changes d = .ok d' := by
  induction changes generalizing d with
  | nil => exact ⟨d,rfl⟩
  | cons e changes ih =>
    obtain ⟨j,b⟩ := e
    rw [List.nodupKeys_cons] at hnd
    obtain ⟨v,hv⟩ := h j
    rw [List.dlookup_cons_eq] at hv
    have hrest : ∀ k, ∃ w, rewriteSlot f (changes.dlookup k) ((d.put j v).lookup k) = .ok w := by
      intro k
      by_cases hk : k = j
      · subst hk
        rw [List.dlookup_eq_none.mpr hnd.1]
        exact ⟨_,rfl⟩
      · obtain ⟨w,hw⟩ := h k
        rw [List.dlookup_cons_ne _ _ (by simpa using hk)] at hw
        rw [lookup_put_ne hk]
        exact ⟨w,hw⟩
    obtain ⟨d',hd'⟩ := ih hnd.2 hrest
    exact ⟨d',rewriteEntries_cons_eq_ok.mpr ⟨v,hv,hd'⟩⟩

theorem rewrite_ok_iff {changes : Dictionary κ β} {d : Dictionary κ α} :
    (∃ d', rewrite f changes d = .ok d') ↔
      ∀ k, ∃ v, rewriteSlot f (changes.lookup k) (d.lookup k) = .ok v := by
  constructor
  · rintro ⟨d',hd'⟩ k
    exact ⟨d'.lookup k,rewrite_lookup hd' k⟩
  · intro h
    exact rewriteEntries_ok changes.nodupKeys h

@[simp] theorem rewrite_empty (d : Dictionary κ α) :
    rewrite f (∅ : Dictionary κ β) d = .ok d := rfl

end Dictionary
end CourseraObjC
