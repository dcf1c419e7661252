import CourseraObjC.ObjectGraph
import CourseraObjC.PathSearch
import CourseraObjC.WaitGraph

/-! What `collectDirtyChildren:` collects: it raises where a circle of new objects can be
reached, and otherwise finds what is dirty among all that can be. -/
namespace CourseraObjC

variable {O F : Type}

/-- What lies in a value once its arrays and dictionaries are opened. -/
inductive Leaf (O F : Type)
  | object (o : O)
  | file (f : F)
  | acl (hasUnresolvedUser : Bool)

namespace Value

mutual

def leaves : Value O F → List (Leaf O F)
  | .object o => [.object o]
  | .file f => [.file f]
  | .acl hasUnresolvedUser => [.acl hasUnresolvedUser]
  | .array values => leavesOfAll values
  | .dictionary values => leavesOfAll values
  | .other => []

def leavesOfAll : List (Value O F) → List (Leaf O F)
  | [] => []
  | value::values => leaves value++leavesOfAll values

end

end Value

namespace ObjectGraph

def leafTargets (g : ObjectGraph O F) : Leaf O F → List O
  | .object o => [o]
  | .file _ => []
  | .acl hasUnresolvedUser => if hasUnresolvedUser then g.currentUser.toList else []

def leafFiles (g : ObjectGraph O F) : Leaf O F → List F
  | .object _ => []
  | .file f => if g.url f = none then [f] else []
  | .acl _ => []

def targets (g : ObjectGraph O F) (value : Value O F) : List O :=
  value.leaves.flatMap g.leafTargets

def unsavedFiles (g : ObjectGraph O F) (value : Value O F) : List F :=
  value.leaves.flatMap g.leafFiles

/-- The objects that a search goes on to from an object. -/
def next (g : ObjectGraph O F) (o : O) : List O :=
  g.targets (g.object o).dictionaryRepresentation

def nextOfNew (g : ObjectGraph O F) (o : O) : List O :=
  if (g.object o).objectId = none then g.next o else []

def filesOf (g : ObjectGraph O F) (o : O) : List F :=
  g.unsavedFiles (g.object o).dictionaryRepresentation

structure Adds (c c' : Collected O F) (children : O → Prop) (files : F → Prop) : Prop where
  children : ∀ o,o∈c'.children ↔ o∈c.children ∨ children o
  files : ∀ f,f∈c'.files ↔ f∈c.files ∨ files f

theorem Adds.trans {c c₁ c₂ : Collected O F} {P P' : O → Prop} {Q Q' : F → Prop}
    (h : Adds c c₁ P Q) (h' : Adds c₁ c₂ P' Q') :
    Adds c c₂ (fun o => P o ∨ P' o) (fun f => Q f ∨ Q' f) where
  children o := by rw [h'.children,h.children,or_assoc]
  files f := by rw [h'.files,h.files,or_assoc]

section Leaves

variable [DecidableEq F] {g : ObjectGraph O F}
  {visit : O → Collected O F → Except SearchHalt (Collected O F)}

def collectLeaf (g : ObjectGraph O F)
    (visit : O → Collected O F → Except SearchHalt (Collected O F)) :
    Leaf O F → Collected O F → Except SearchHalt (Collected O F)
  | .object o,c => visit o c
  | .file f,c => .ok (if g.url f = none then {c with files := insert f c.files} else c)
  | .acl hasUnresolvedUser,c => g.collectValue visit (.acl hasUnresolvedUser) c

def collectLeaves (g : ObjectGraph O F)
    (visit : O → Collected O F → Except SearchHalt (Collected O F)) :
    List (Leaf O F) → Collected O F → Except SearchHalt (Collected O F)
  | [],c => .ok c
  | leaf::leaves,c =>
    match collectLeaf g visit leaf c with
    | .error halt => .error halt
    | .ok c => collectLeaves g visit leaves c

theorem collectLeaves_append (l l' : List (Leaf O F)) (c : Collected O F) :
    collectLeaves g visit (l++l') c =
      match collectLeaves g visit l c with
      | .error halt => .error halt
      | .ok c => collectLeaves g visit l' c := by
  induction l generalizing c with
  | nil => rfl
  | cons leaf l ih =>
    rw [List.cons_append,collectLeaves,collectLeaves]
    cases collectLeaf g visit leaf c with
    | error halt => rfl
    | ok c => exact ih c

theorem collectLeaves_singleton (leaf : Leaf O F) (c : Collected O F) :
    collectLeaves g visit [leaf] c = collectLeaf g visit leaf c := by
  rw [collectLeaves]
  cases collectLeaf g visit leaf c with
  | error halt => rfl
  | ok c => rfl

mutual

theorem collectValue_eq (value : Value O F) (c : Collected O F) :
    g.collectValue visit value c = collectLeaves g visit value.leaves c := by
  cases value with
  | object o => rw [Value.leaves,collectLeaves_singleton,collectValue,collectLeaf]
  | file f => rw [Value.leaves,collectLeaves_singleton,collectValue,collectLeaf]
  | acl hasUnresolvedUser => rw [Value.leaves,collectLeaves_singleton,collectLeaf]
  | array values =>
    rw [collectValue,Value.leaves]
    exact collectValues_eq values c
  | dictionary values =>
    rw [collectValue,Value.leaves]
    exact collectValues_eq values c
  | other => rw [Value.leaves,collectValue,collectLeaves]

theorem collectValues_eq (values : List (Value O F)) (c : Collected O F) :
    g.collectValues visit values c = collectLeaves g visit (Value.leavesOfAll values) c := by
  cases values with
  | nil => rfl
  | cons value values =>
    rw [collectValues,Value.leavesOfAll,collectLeaves_append,collectValue_eq value c]
    cases collectLeaves g visit value.leaves c with
    | error halt => rfl
    | ok c => exact collectValues_eq values c

end

/-- A leaf either has one target and no file, or has none and is only noted. -/
theorem leaf_cases (g : ObjectGraph O F)
    (visit : O → Collected O F → Except SearchHalt (Collected O F)) (leaf : Leaf O F) :
    (∃ o,g.leafTargets leaf = [o] ∧ g.leafFiles leaf = [] ∧
      ∀ c,collectLeaf g visit leaf c = visit o c) ∨
    g.leafTargets leaf = [] ∧ ∀ c,∃ c',collectLeaf g visit leaf c = .ok c' ∧
      Adds c c' (fun _ => False) fun f => f∈g.leafFiles leaf := by
  cases leaf with
  | object o => exact Or.inl ⟨o,rfl,rfl,fun _ => rfl⟩
  | file f =>
    refine Or.inr ⟨rfl,fun c => ⟨_,rfl,?_,?_⟩⟩
    · intro o
      by_cases hurl : g.url f = none
      · simp [hurl]
      · simp [hurl]
    · intro f'
      by_cases hurl : g.url f = none
      · simp [hurl,leafFiles,or_comm]
      · simp [hurl,leafFiles]
  | acl hasUnresolvedUser =>
    have hnothing : ∀ c : Collected O F,Adds c c (fun _ => False) fun f => f∈([] : List F) := by
      intro c
      exact ⟨fun o => by simp,fun f => by simp⟩
    cases hasUnresolvedUser with
    | false => exact Or.inr ⟨rfl,fun c => ⟨c,by simp [collectLeaf,collectValue],hnothing c⟩⟩
    | true =>
      cases huser : g.currentUser with
      | none =>
        refine Or.inr ⟨by simp [leafTargets,huser],fun c => ⟨c,?_,hnothing c⟩⟩
        simp [collectLeaf,collectValue,huser]
      | some user =>
        refine Or.inl ⟨user,by simp [leafTargets,huser],rfl,fun c => ?_⟩
        simp [collectLeaf,collectValue,huser]

theorem collectLeaves_adds {P : O → O → Prop} {Q : O → F → Prop} {l : List (Leaf O F)}
    (hvisit : ∀ o∈l.flatMap g.leafTargets,∀ c,∃ c',visit o c = .ok c' ∧ Adds c c' (P o) (Q o))
    (c : Collected O F) :
    ∃ c',collectLeaves g visit l c = .ok c' ∧
      Adds c c' (fun x => ∃ o∈l.flatMap g.leafTargets,P o x)
        (fun f => f∈l.flatMap g.leafFiles ∨ ∃ o∈l.flatMap g.leafTargets,Q o f) := by
  induction l generalizing c with
  | nil => exact ⟨c,rfl,fun o => by simp,fun f => by simp⟩
  | cons leaf l ih =>
    rw [List.flatMap_cons] at hvisit
    have hrest := ih fun o ho => hvisit o (List.mem_append_right _ ho)
    rw [collectLeaves]
    rcases leaf_cases g visit leaf with ⟨o,htargets,hfiles,heq⟩ | ⟨htargets,hnotes⟩
    · obtain ⟨c₁,hc₁,hadds₁⟩ := hvisit o (by simp [htargets]) c
      obtain ⟨c₂,hc₂,hadds₂⟩ := hrest c₁
      refine ⟨c₂,?_,?_⟩
      · rw [heq,hc₁]
        exact hc₂
      · have hboth := hadds₁.trans hadds₂
        refine ⟨fun x => ?_,fun f => ?_⟩
        · rw [hboth.children]
          simp [htargets]
        · rw [hboth.files]
          simp only [List.flatMap_cons,htargets,hfiles,List.nil_append,List.singleton_append,
            List.mem_cons,exists_eq_or_imp]
          tauto
    · obtain ⟨c₁,hc₁,hadds₁⟩ := hnotes c
      obtain ⟨c₂,hc₂,hadds₂⟩ := hrest c₁
      refine ⟨c₂,?_,?_⟩
      · rw [hc₁]
        exact hc₂
      · have hboth := hadds₁.trans hadds₂
        refine ⟨fun x => ?_,fun f => ?_⟩
        · rw [hboth.children]
          simp [htargets]
        · rw [hboth.files]
          simp only [List.flatMap_cons,htargets,List.nil_append,List.mem_append]
          tauto

theorem collectLeaves_error {l : List (Leaf O F)} {c : Collected O F} {halt : SearchHalt}
    (h : collectLeaves g visit l c = .error halt) :
    ∃ o∈l.flatMap g.leafTargets,∃ c₁,visit o c₁ = .error halt := by
  induction l generalizing c with
  | nil => cases h
  | cons leaf l ih =>
    rw [collectLeaves] at h
    rw [List.flatMap_cons]
    rcases leaf_cases g visit leaf with ⟨o,htargets,_,heq⟩ | ⟨htargets,hnotes⟩
    · rw [heq] at h
      cases hvisit : visit o c with
      | error halt' =>
        rw [hvisit] at h
        refine ⟨o,by simp [htargets],c,?_⟩
        rw [hvisit]
        exact h
      | ok c₁ =>
        rw [hvisit] at h
        obtain ⟨o',ho',c₂,hc₂⟩ := ih h
        exact ⟨o',List.mem_append_right _ ho',c₂,hc₂⟩
    · obtain ⟨c₁,hc₁,_⟩ := hnotes c
      rw [hc₁] at h
      obtain ⟨o',ho',c₂,hc₂⟩ := ih h
      exact ⟨o',List.mem_append_right _ ho',c₂,hc₂⟩

theorem collectLeaves_ok {l : List (Leaf O F)} {c c' : Collected O F}
    (h : collectLeaves g visit l c = .ok c') :
    ∀ o∈l.flatMap g.leafTargets,∃ c₁ c₂,visit o c₁ = .ok c₂ := by
  induction l generalizing c with
  | nil => exact fun o ho => absurd ho List.not_mem_nil
  | cons leaf l ih =>
    intro o ho
    rw [List.flatMap_cons] at ho
    rw [collectLeaves] at h
    cases hleaf : collectLeaf g visit leaf c with
    | error halt =>
      rw [hleaf] at h
      cases h
    | ok c₁ =>
      rw [hleaf] at h
      rcases List.mem_append.mp ho with ho | ho
      · rcases leaf_cases g visit leaf with ⟨o',htargets,_,heq⟩ | ⟨htargets,_⟩
        · rw [htargets] at ho
          rw [List.mem_singleton.mp ho]
          exact ⟨c,c₁,(heq c).symm.trans hleaf⟩
        · rw [htargets] at ho
          exact absurd ho List.not_mem_nil
      · exact ih h o ho

end Leaves

section Search

open PathSearch

variable [DecidableEq O] {g : ObjectGraph O F} {n : ℕ} {seen seenNew : Finset O} {o : O}

/-- What a search from an object finds that has not been seen. -/
def FindsChild (g : ObjectGraph O F) (seen : Finset O) (o x : O) : Prop :=
  o∉seen ∧ Unseen g.next seen o x ∧ (g.object x).isDirty = true

def FindsFile (g : ObjectGraph O F) (seen : Finset O) (o : O) (f : F) : Prop :=
  o∉seen ∧ ∃ x,Unseen g.next seen o x ∧ f∈g.filesOf x

theorem findsChild_iff (hnot : o∉seen) {x : O} : FindsChild g seen o x ↔
    (x = o ∧ (g.object o).isDirty = true) ∨ ∃ p∈g.next o,FindsChild g (insert o seen) p x := by
  rw [FindsChild,unseen_iff]
  constructor
  · rintro ⟨_,rfl | ⟨p,hp,hfree,hpath⟩,hdirty⟩
    · exact Or.inl ⟨rfl,hdirty⟩
    · exact Or.inr ⟨p,hp,hfree,hpath,hdirty⟩
  · rintro (⟨rfl,hdirty⟩ | ⟨p,hp,hfree,hpath,hdirty⟩)
    · exact ⟨hnot,Or.inl rfl,hdirty⟩
    · exact ⟨hnot,Or.inr ⟨p,hp,hfree,hpath⟩,hdirty⟩

theorem findsFile_iff (hnot : o∉seen) {f : F} : FindsFile g seen o f ↔
    f∈g.filesOf o ∨ ∃ p∈g.next o,FindsFile g (insert o seen) p f := by
  constructor
  · rintro ⟨_,x,hpath,hf⟩
    rcases unseen_iff.mp hpath with rfl | ⟨p,hp,hfree,hpath⟩
    · exact Or.inl hf
    · exact Or.inr ⟨p,hp,hfree,x,hpath,hf⟩
  · rintro (hf | ⟨p,hp,hfree,x,hpath,hf⟩)
    · exact ⟨hnot,o,Relation.ReflTransGen.refl,hf⟩
    · exact ⟨hnot,x,unseen_iff.mpr (Or.inr ⟨p,hp,hfree,hpath⟩),hf⟩

/-- What has been seen of new objects once the search is in the object. -/
def seenNewIn (g : ObjectGraph O F) (seenNew : Finset O) (o : O) : Finset O :=
  if (g.object o).objectId = none then insert o seenNew else ∅

variable [DecidableEq F]

theorem visit_succ (hnew : ¬((g.object o).objectId = none ∧ o∈seenNew)) (hnot : o∉seen)
    (c : Collected O F) :
    g.visit (n+1) seen seenNew o c =
      match collectLeaves g (g.visit n (insert o seen) (seenNewIn g seenNew o))
          (g.object o).dictionaryRepresentation.leaves c with
      | .error halt => .error halt
      | .ok c =>
        .ok (if (g.object o).isDirty then {c with children := insert o c.children} else c) := by
  rw [visit,if_neg hnew,if_neg hnot]
  simp only [collectValue_eq]
  rfl

def Raises (g : ObjectGraph O F) (n : ℕ) (seen seenNew : Finset O) (o : O) : Prop :=
  ∀ c,g.visit n seen seenNew o c = .error (.raised circularDependency)

/-- A visit that adds what it finds. -/
def Finds (g : ObjectGraph O F) (n : ℕ) (seen seenNew : Finset O) (o : O) : Prop :=
  ∀ c,∃ c',g.visit n seen seenNew o c = .ok c' ∧
    Adds c c' (FindsChild g seen o) (FindsFile g seen o)

theorem raises_of_new (hnew : (g.object o).objectId = none ∧ o∈seenNew) :
    Raises g n seen seenNew o := by
  intro c
  rw [visit.eq_def,if_pos hnew]

theorem finds_of_seen (hnew : ¬((g.object o).objectId = none ∧ o∈seenNew)) (hseen : o∈seen) :
    Finds g n seen seenNew o := by
  intro c
  refine ⟨c,by rw [visit.eq_def,if_neg hnew,if_pos hseen],fun x => ?_,fun f => ?_⟩
  · simp [FindsChild,hseen]
  · simp [FindsFile,hseen]

theorem raises_of_next {p : O} (hnew : ¬((g.object o).objectId = none ∧ o∈seenNew))
    (hnot : o∉seen) (hp : p∈g.next o)
    (hraises : Raises g n (insert o seen) (seenNewIn g seenNew o) p)
    (hothers : ∀ p∈g.next o,Raises g n (insert o seen) (seenNewIn g seenNew o) p ∨
      Finds g n (insert o seen) (seenNewIn g seenNew o) p) :
    Raises g (n+1) seen seenNew o := by
  intro c
  rw [visit_succ hnew hnot]
  cases hleaves : collectLeaves g (g.visit n (insert o seen) (seenNewIn g seenNew o))
      (g.object o).dictionaryRepresentation.leaves c with
  | ok c' =>
    obtain ⟨c₁,c₂,hok⟩ := collectLeaves_ok hleaves p hp
    rw [hraises] at hok
    cases hok
  | error halt =>
    obtain ⟨q,hq,c₁,hhalt⟩ := collectLeaves_error hleaves
    rcases hothers q hq with hraises' | hfinds
    · rw [hraises'] at hhalt
      rw [Except.error.inj hhalt]
    · obtain ⟨c₂,hok,_⟩ := hfinds c₁
      rw [hok] at hhalt
      cases hhalt

theorem finds_of_next (hnew : ¬((g.object o).objectId = none ∧ o∈seenNew)) (hnot : o∉seen)
    (hall : ∀ p∈g.next o,Finds g n (insert o seen) (seenNewIn g seenNew o) p) :
    Finds g (n+1) seen seenNew o := by
  intro c
  obtain ⟨c₁,hc₁,hadds⟩ := collectLeaves_adds hall c
  rw [visit_succ hnew hnot,hc₁]
  refine ⟨_,rfl,fun x => ?_,fun f => ?_⟩
  · rw [findsChild_iff hnot]
    have hx := hadds.children x
    cases hdirty : (g.object o).isDirty with
    | true =>
      simp only [if_true,Finset.mem_insert,hx]
      tauto
    | false =>
      simp only [Bool.false_eq_true,if_false,hx]
      tauto
  · rw [findsFile_iff hnot]
    have hf := hadds.files f
    cases hdirty : (g.object o).isDirty with
    | true =>
      simp only [if_true]
      exact hf
    | false =>
      simp only [Bool.false_eq_true,if_false]
      exact hf

/-- Among new objects that each point to another one of them a search does not come to its end. -/
theorem visit_circle {C : O → Prop} (hC : ∀ x,C x → ∃ y∈g.nextOfNew x,C y)
    (hseen : ∀ x∈seen,C x → x∈seenNew) (ho : C o) (c c' : Collected O F) :
    g.visit n seen seenNew o c ≠ .ok c' := by
  have hnewOf : ∀ {x},C x → (g.object x).objectId = none := by
    intro x hx
    by_contra hid
    obtain ⟨y,hy,_⟩ := hC x hx
    rw [nextOfNew,if_neg hid] at hy
    exact absurd hy List.not_mem_nil
  induction n generalizing seen seenNew o c c' with
  | zero =>
    intro hok
    by_cases hin : o∈seen
    · rw [raises_of_new ⟨hnewOf ho,hseen o hin ho⟩] at hok
      cases hok
    · rw [visit] at hok
      split_ifs at hok
  | succ n ih =>
    intro hok
    by_cases hnew : (g.object o).objectId = none ∧ o∈seenNew
    · rw [raises_of_new hnew] at hok
      cases hok
    · have hnot : o∉seen := fun hin => hnew ⟨hnewOf ho,hseen o hin ho⟩
      rw [visit_succ hnew hnot] at hok
      cases hleaves : collectLeaves g (g.visit n (insert o seen) (seenNewIn g seenNew o))
          (g.object o).dictionaryRepresentation.leaves c with
      | error halt =>
        rw [hleaves] at hok
        cases hok
      | ok c₁ =>
        obtain ⟨y,hy,hyC⟩ := hC o ho
        rw [nextOfNew,if_pos (hnewOf ho)] at hy
        obtain ⟨c₂,c₃,hvisit⟩ := collectLeaves_ok hleaves y hy
        refine ih ?_ hyC c₂ c₃ hvisit
        intro x hx hxC
        rw [seenNewIn,if_pos (hnewOf ho)]
        rcases Finset.mem_insert.mp hx with rfl | hx
        · exact Finset.mem_insert_self _ _
        · exact Finset.mem_insert_of_mem (hseen x hx hxC)

theorem visit_reaches {C : O → Prop} (hC : ∀ x,C x → ∃ y∈g.nextOfNew x,C y)
    (hseen : ∀ x∈seen,¬C x) (hnot : o∉seen) {z : O} (hpath : Unseen g.next seen o z) (hz : C z)
    (c c' : Collected O F) : g.visit n seen seenNew o c ≠ .ok c' := by
  induction n generalizing seen seenNew o c c' with
  | zero =>
    intro hok
    rw [visit] at hok
    split_ifs at hok
  | succ n ih =>
    by_cases ho : C o
    · exact visit_circle hC (fun x hx hxC => absurd hxC (hseen x hx)) ho c c'
    · intro hok
      by_cases hnew : (g.object o).objectId = none ∧ o∈seenNew
      · rw [raises_of_new hnew] at hok
        cases hok
      · rw [visit_succ hnew hnot] at hok
        cases hleaves : collectLeaves g (g.visit n (insert o seen) (seenNewIn g seenNew o))
            (g.object o).dictionaryRepresentation.leaves c with
        | error halt =>
          rw [hleaves] at hok
          cases hok
        | ok c₁ =>
          rcases unseen_cases hpath with rfl | ⟨p,hp,hfree,hrest⟩
          · exact ho hz
          · obtain ⟨c₂,c₃,hvisit⟩ := collectLeaves_ok hleaves p hp
            refine ih ?_ hfree hrest c₂ c₃ hvisit
            intro x hx
            rcases Finset.mem_insert.mp hx with rfl | hx
            · exact ho
            · exact hseen x hx

theorem inCircle_of_raises {c : Collected O F} {exception : NSException}
    (hseenNew : ∀ x∈seenNew,Relation.TransGen (WaitGraph.Waits g.nextOfNew) x o)
    (h : g.visit n seen seenNew o c = .error (.raised exception)) :
    ∃ z,Reaches g.next o z ∧ WaitGraph.InCircle g.nextOfNew z := by
  induction n generalizing seen seenNew o c with
  | zero =>
    by_cases hnew : (g.object o).objectId = none ∧ o∈seenNew
    · exact ⟨o,Relation.ReflTransGen.refl,hseenNew o hnew.2⟩
    · rw [visit,if_neg hnew] at h
      split_ifs at h
      cases h
  | succ n ih =>
    by_cases hnew : (g.object o).objectId = none ∧ o∈seenNew
    · exact ⟨o,Relation.ReflTransGen.refl,hseenNew o hnew.2⟩
    · by_cases hin : o∈seen
      · rw [visit,if_neg hnew,if_pos hin] at h
        cases h
      · rw [visit_succ hnew hin] at h
        cases hleaves : collectLeaves g (g.visit n (insert o seen) (seenNewIn g seenNew o))
            (g.object o).dictionaryRepresentation.leaves c with
        | ok c₁ =>
          rw [hleaves] at h
          cases h
        | error halt =>
          rw [hleaves] at h
          obtain ⟨p,hp,c₁,hhalt⟩ := collectLeaves_error hleaves
          obtain rfl := Except.error.inj h
          have hbehind : ∀ x∈seenNewIn g seenNew o,
              Relation.TransGen (WaitGraph.Waits g.nextOfNew) x p := by
            intro x hx
            rw [seenNewIn] at hx
            split_ifs at hx with hid
            · have hedge : WaitGraph.Waits g.nextOfNew o p := by
                rw [WaitGraph.Waits,nextOfNew,if_pos hid]
                exact hp
              rcases Finset.mem_insert.mp hx with rfl | hx
              · exact Relation.TransGen.single hedge
              · exact (hseenNew x hx).tail hedge
            · exact absurd hx (Finset.notMem_empty x)
          obtain ⟨z,hreach,hcircle⟩ := ih hbehind hhalt
          exact ⟨z,reaches_head hp hreach,hcircle⟩

variable [Fintype O]

/-- A search that may go deep enough raises or adds what it finds. -/
theorem visit_spec (hn : left seen ≤ n) :
    Raises g n seen seenNew o ∨ Finds g n seen seenNew o := by
  induction n generalizing seen seenNew o with
  | zero =>
    by_cases hnew : (g.object o).objectId = none ∧ o∈seenNew
    · exact Or.inl (raises_of_new hnew)
    · by_cases hseen : o∈seen
      · exact Or.inr (finds_of_seen hnew hseen)
      · have hleft := left_insert hseen
        omega
  | succ n ih =>
    by_cases hnew : (g.object o).objectId = none ∧ o∈seenNew
    · exact Or.inl (raises_of_new hnew)
    · by_cases hseen : o∈seen
      · exact Or.inr (finds_of_seen hnew hseen)
      · have hleft : left (insert o seen) ≤ n := by
          have hone := left_insert hseen
          omega
        by_cases hfails : ∃ p∈g.next o,Raises g n (insert o seen) (seenNewIn g seenNew o) p
        · obtain ⟨p,hp,hraises⟩ := hfails
          exact Or.inl (raises_of_next hnew hseen hp hraises fun q _ => ih hleft)
        · refine Or.inr (finds_of_next hnew hseen fun p hp => ?_)
          exact (ih hleft).resolve_left fun hraises => hfails ⟨p,hp,hraises⟩

/-- From the value one gets to new objects that point to one another in a circle. -/
def NewCircle (g : ObjectGraph O F) (node : Value O F) : Prop :=
  ∃ o∈g.targets node,∃ z,Reaches g.next o z ∧ WaitGraph.InCircle g.nextOfNew z

theorem visit_start (o : O) : Raises g (Fintype.card O) ∅ ∅ o ∨ Finds g (Fintype.card O) ∅ ∅ o :=
  visit_spec (Nat.le_of_eq left_empty)

theorem newCircle_of_error {node : Value O F} {halt : SearchHalt}
    (h : g.collectDirtyChildren node = .error halt) :
    halt = .raised circularDependency ∧ NewCircle g node := by
  rw [collectDirtyChildren,collectValue_eq] at h
  obtain ⟨o,ho,c,hhalt⟩ := collectLeaves_error h
  rcases visit_start (g:=g) o with hraises | hfinds
  · obtain ⟨z,hz⟩ := inCircle_of_raises (fun x hx => absurd hx (Finset.notMem_empty x)) (hraises c)
    rw [hraises] at hhalt
    exact ⟨(Except.error.inj hhalt).symm,o,ho,z,hz⟩
  · obtain ⟨c',hok,_⟩ := hfinds c
    rw [hok] at hhalt
    cases hhalt

theorem not_ok_of_newCircle {node : Value O F} (hcircle : NewCircle g node) (c : Collected O F) :
    g.collectDirtyChildren node ≠ .ok c := by
  intro hok
  obtain ⟨o,ho,z,hreach,hz⟩ := hcircle
  rw [collectDirtyChildren,collectValue_eq] at hok
  obtain ⟨c₁,c₂,hvisit⟩ := collectLeaves_ok hok o ho
  refine visit_reaches (fun x hx => hz.next hx) ?_ ?_ hreach ⟨hz,hz⟩ c₁ c₂ hvisit
  · exact fun x hx => absurd hx (Finset.notMem_empty x)
  · exact Finset.notMem_empty o

theorem collected_iff {node : Value O F} {c : Collected O F}
    (h : g.collectDirtyChildren node = .ok c) :
    (∀ o,o∈c.children ↔ (g.object o).isDirty = true ∧ ∃ r∈g.targets node,Reaches g.next r o) ∧
    ∀ f,f∈c.files ↔ f∈g.unsavedFiles node ∨
      ∃ r∈g.targets node,∃ o,Reaches g.next r o ∧ f∈g.filesOf o := by
  rw [collectDirtyChildren,collectValue_eq] at h
  have hfinds : ∀ o∈node.leaves.flatMap g.leafTargets,Finds g (Fintype.card O) ∅ ∅ o := by
    intro o ho
    rcases visit_start (g:=g) o with hraises | hfinds
    · obtain ⟨c₁,c₂,hok⟩ := collectLeaves_ok h o ho
      rw [hraises] at hok
      cases hok
    · exact hfinds
  obtain ⟨c',hc',hadds⟩ := collectLeaves_adds hfinds ⟨∅,∅⟩
  obtain rfl : c' = c := Except.ok.inj (hc'.symm.trans h)
  constructor
  · intro o
    rw [hadds.children]
    constructor
    · rintro (hin | ⟨r,hr,_,hpath,hdirty⟩)
      · exact absurd hin (Finset.notMem_empty o)
      · exact ⟨hdirty,r,hr,hpath⟩
    · rintro ⟨hdirty,r,hr,hpath⟩
      exact Or.inr ⟨r,hr,Finset.notMem_empty r,hpath,hdirty⟩
  · intro f
    rw [hadds.files]
    constructor
    · rintro (hin | hin | ⟨r,hr,_,x,hpath,hf⟩)
      · exact absurd hin (Finset.notMem_empty f)
      · exact Or.inl hin
      · exact Or.inr ⟨r,hr,x,hpath,hf⟩
    · rintro (hin | ⟨r,hr,x,hpath,hf⟩)
      · exact Or.inr (Or.inl hin)
      · exact Or.inr (Or.inr ⟨r,hr,Finset.notMem_empty r,x,hpath,hf⟩)

/-- The search comes to its end. It raises if it can get to a circle of new objects, and collects
the dirty objects and the unsaved files that can be reached if it cannot. -/
theorem collectDirtyChildren_correct (g : ObjectGraph O F) (node : Value O F) :
    (NewCircle g node → g.collectDirtyChildren node = .error (.raised circularDependency)) ∧
    (¬NewCircle g node → ∃ c,g.collectDirtyChildren node = .ok c ∧
      (∀ o,o∈c.children ↔ (g.object o).isDirty = true ∧ ∃ r∈g.targets node,Reaches g.next r o) ∧
      ∀ f,f∈c.files ↔ f∈g.unsavedFiles node ∨
        ∃ r∈g.targets node,∃ o,Reaches g.next r o ∧ f∈g.filesOf o) := by
  cases hcollect : g.collectDirtyChildren node with
  | error halt =>
    obtain ⟨rfl,hcircle⟩ := newCircle_of_error hcollect
    exact ⟨fun _ => rfl,fun hnone => absurd hcircle hnone⟩
  | ok c =>
    refine ⟨fun hcircle => absurd hcollect (not_ok_of_newCircle hcircle c),fun _ => ?_⟩
    exact ⟨c,rfl,collected_iff hcollect⟩

end Search

end ObjectGraph
end CourseraObjC
