import CourseraObjC.UserEngine

/-! Playground's accounts: what logging in checks, what a failed call leaves behind, and
whether deleting an account undoes creating it. -/
namespace CourseraObjC
namespace Playground

def calm : Attempt := ⟨⟨id,fun _ => List.Perm.refl _⟩,true,true⟩

theorem calm_succeeds : calm.Succeeds := ⟨rfl,rfl⟩

/-! ### Credentials -/

theorem performAll_settled (calls : List (Attempt × Call)) (h : ∀ x ∈ calls, x.1.Succeeds) :
    (performAll calls).Settled := by
  unfold performAll
  apply List.foldlRecOn calls _ (motive := Context.Settled)
  · exact Context.settled_ofStore _ _ _
  · intro moc hmoc x hx
    obtain ⟨hfetches,hsaves⟩ := h x hx
    cases hcall : x.2 with
    | createUser u =>
      simp only [Call.perform,createUser_eq,hsaves,if_true]
      exact Context.settled_committed _
    | deleteUser =>
      rcases deleteUser_cases hfetches moc with ⟨_,hdel⟩ | ⟨i,a,_,_,hdel⟩
      · simpa [Call.perform,hdel] using hmoc
      · simp only [Call.perform,hdel,hsaves,if_true]
        exact Context.settled_committed _

def Stored (moc : Context User) (name password : String) : Prop :=
  ∃ i a, moc.stored? i = some a ∧ a.name = some name ∧ a.password = some password

/-- `login:` checks the credentials exactly where the name is unknown or belongs to a
user with that password. -/
theorem login_checks_credentials_iff (calls : List (Attempt × Call))
    (hcalls : ∀ x ∈ calls, x.1.Succeeds) (env : Attempt) (henv : env.fetches = true)
    (name password : String) :
    (login env ⟨some name,some password⟩ (performAll calls) = true ↔
        Stored (performAll calls) name password) ↔
      ((∃ i a, (performAll calls).stored? i = some a ∧ a.name = some name) →
        Stored (performAll calls) name password) := by
  have hlogin : login env ⟨some name,some password⟩ (performAll calls) = true ↔
      ∃ i a, (performAll calls).stored? i = some a ∧ a.name = some name := by
    simp only [login_iff henv,performAll_settled calls hcalls _]
  rw [hlogin]
  constructor
  · exact fun h => h.mp
  · intro h
    refine ⟨h,?_⟩
    rintro ⟨i,a,ha,hname,_⟩
    exact ⟨i,a,ha,hname⟩

def annSignedUp : List (Attempt × Call) := [(calm,.createUser ⟨some "ann",some "secret"⟩)]

theorem login_checks_credentials_iff_ann :
    (login calm ⟨some "ann",some "secret"⟩ (performAll annSignedUp) = true ↔
        Stored (performAll annSignedUp) "ann" "secret") ↔
      ((∃ i a, (performAll annSignedUp).stored? i = some a ∧ a.name = some "ann") →
        Stored (performAll annSignedUp) "ann" "secret") :=
  login_checks_credentials_iff annSignedUp
    (by simp [annSignedUp,Attempt.Succeeds,calm]) calm rfl "ann" "secret"

theorem login_with_wrong_password :
    ¬ (login calm ⟨some "ann",some "guess"⟩ (performAll annSignedUp) = true ↔
      Stored (performAll annSignedUp) "ann" "guess") := by
  intro h
  obtain ⟨i,a,ha,_,hpassword⟩ := h.mp (by decide)
  have hobj : (withUser ⟨some "ann",some "secret"⟩ Context.empty).object? i = some a := ha
  rw [object?_withUser] at hobj
  split_ifs at hobj
  · obtain rfl := Option.some.inj hobj
    exact absurd hpassword (by decide)
  · cases hobj

/-! ### Failed calls -/

/-- What may follow a failed call: the engine's calls, and the save at the app's end. -/
inductive Later
  | login (userModel : UserModel)
  | checkAvailability
  | call (c : Call)
  | saveContext
  deriving DecidableEq

structure Observation where
  fetched : Multiset User
  saved : Option (Multiset User)

def fetchedUsers (env : Attempt) (predicate : User → Bool) (moc : Context User) : Multiset User :=
  if env.fetches then ↑((moc.executeFetchRequest env.order predicate).map Prod.snd) else 0

/-- `CoreDataManager`'s `saveContext` aborts where its save fails, so that the next
launch goes on from the store. -/
def saveContext (env : Attempt) (moc : Context User) : Bool × Context User :=
  if moc.hasChanges then
    match moc.save User.valid env.saves with
    | some saved => (true,saved)
    | none => (false,moc.relaunched)
  else (false,moc)

def observe (env : Attempt) (moc : Context User) : Later → Observation × Context User
  | .login u => (⟨fetchedUsers env (fun a => a.name = u.name) moc,none⟩,moc)
  | .checkAvailability => (⟨fetchedUsers env (fun _ => true) moc,none⟩,moc)
  | .call (.createUser u) =>
    let r := createUser env u moc
    (⟨0,if r.1 then some r.2.storedValues else none⟩,r.2)
  | .call .deleteUser =>
    let r := deleteUser env moc
    (⟨fetchedUsers env (fun _ => true) moc,
      if r.1 = .userDeleted then some r.2.storedValues else none⟩,r.2)
  | .saveContext =>
    let r := saveContext env moc
    (⟨0,if r.1 then some r.2.storedValues else none⟩,r.2)

/-- The observations later calls may make, given which of their fetches and saves
succeed; the fetches may come in any order. -/
inductive Observes : Context User → List (Bool × Bool × Later) → List Observation → Prop
  | nil (moc : Context User) : Observes moc [] []
  | cons (env : Attempt) (moc : Context User) (l : Later) (ls : List (Bool × Bool × Later))
      (os : List Observation) (h : Observes (observe env moc l).2 ls os) :
      Observes moc ((env.fetches,env.saves,l)::ls) ((observe env moc l).1::os)

/-- No later call can tell one state of the engine from the other. -/
def Unaffected (moc moc' : Context User) : Prop :=
  ∀ ls os, Observes moc ls os ↔ Observes moc' ls os

theorem fetchedUsers_all {env : Attempt} (h : env.fetches = true) (moc : Context User) :
    fetchedUsers env (fun _ => true) moc = moc.values := by
  rw [fetchedUsers,if_pos h,Context.coe_executeFetchRequest]
  simp

theorem unaffected_values {moc moc' : Context User} (h : Unaffected moc moc') :
    moc.values = moc'.values := by
  have hobs : Observes moc [(true,true,.checkAvailability)] [⟨moc.values,none⟩] := by
    rw [← fetchedUsers_all calm_succeeds.1 moc]
    exact Observes.cons calm moc .checkAvailability [] [] (Observes.nil _)
  generalize hls : [(true,true,Later.checkAvailability)] = ls at hobs
  generalize hos : [(⟨moc.values,none⟩ : Observation)] = os at hobs
  cases (h ls os).mp hobs with
  | nil => cases hls
  | cons env _ l ls os hrest =>
    simp only [List.cons.injEq,Prod.mk.injEq] at hls hos
    obtain ⟨⟨hfetches,_,rfl⟩,_⟩ := hls
    have hfetched := congrArg Observation.fetched hos.1
    simpa [observe,fetchedUsers_all hfetches.symm] using hfetched

def Call.Fails (env : Attempt) (moc : Context User) : Call → Prop
  | .createUser u => (Playground.createUser env u moc).1 = false
  | .deleteUser => (Playground.deleteUser env moc).1 = .unableToDelete

theorem failed_call_values {env : Attempt} {moc : Context User} {call : Call}
    (h : call.Fails env moc) :
    ∃ a, (call.perform env moc).values = a ::ₘ moc.values ∨
      moc.values = a ::ₘ (call.perform env moc).values := by
  cases call with
  | createUser u =>
    simp only [Call.Fails,createUser_eq] at h
    refine ⟨⟨u.name,u.password⟩,Or.inl ?_⟩
    simp [Call.perform,createUser_eq,h,values_withUser]
  | deleteUser =>
    have hfetches : env.fetches = true := by
      by_contra hf
      simp [Call.Fails,Playground.deleteUser,hf] at h
    rcases deleteUser_cases hfetches moc with ⟨_,hdel⟩ | ⟨i,a,ha,_,hdel⟩
    · simp [Call.Fails,hdel] at h
    · have hsaves : env.saves ≠ true := by
        intro hs
        simp [Call.Fails,hdel,hs] at h
      refine ⟨a,Or.inr ?_⟩
      rw [Call.perform,hdel,if_neg hsaves]
      exact Context.values_deleteObject ha

/-- No failed call is atomic, whatever the state it meets. -/
theorem failed_call_not_atomic {env : Attempt} {moc : Context User} {call : Call}
    (h : call.Fails env moc) : ¬ Unaffected moc (call.perform env moc) := by
  intro hun
  have hvalues := unaffected_values hun
  obtain ⟨a,hmore | hless⟩ := failed_call_values h
  · have hcard := congrArg Multiset.card (hvalues.trans hmore)
    simp at hcard
  · have hcard := congrArg Multiset.card (hvalues.symm.trans hless)
    simp at hcard

def full : Attempt := { calm with saves := false }

theorem failed_deletion_not_atomic :
    ¬ Unaffected (performAll annSignedUp) (Call.deleteUser.perform full (performAll annSignedUp)) :=
  failed_call_not_atomic
    (show (deleteUser full (performAll annSignedUp)).1 = .unableToDelete by decide)

theorem failed_creation_visible :
    ¬ Unaffected Context.empty
      (Call.perform full Context.empty (.createUser ⟨some "bob",some "pw"⟩)) := by
  intro hun
  have hcard := congrArg Multiset.card (unaffected_values hun)
  exact absurd hcard (by decide)

/-- A failed creation returns NO, and yet logging in with the name succeeds. -/
theorem login_after_failed_creation {env later : Attempt} (henv : env.saves = false)
    (hlater : later.fetches = true) (u : UserModel) (moc : Context User) :
    (createUser env u moc).1 = false ∧ login later u (createUser env u moc).2 = true := by
  rw [createUser_eq,login_iff hlater]
  refine ⟨henv,moc.next,⟨u.name,u.password⟩,?_,rfl⟩
  simp [henv]

/-! ### Deleting an account -/

/-- Deleting right after creating restores the stored users, and removes no user but the
one just created, in every order a fetch may choose. -/
def UndoesCreation (u : UserModel) (moc : Context User) : Prop :=
  ∀ env env', (createUser env u moc).1 = true → env'.Succeeds →
    (deleteUser env' (createUser env u moc).2).2.storedValues = moc.storedValues ∧
      ∀ i ≠ moc.next, (deleteUser env' (createUser env u moc).2).2.stored? i =
        (createUser env u moc).2.stored? i

theorem deleteUser_createUser {env env' : Attempt} (henv : env.saves = true)
    (henv' : env'.Succeeds) (u : UserModel) (moc : Context User) :
    ∃ i a, (withUser u moc).object? i = some a ∧
      ((withUser u moc).committed.executeFetchRequest env'.order fun _ => true).head? = some (i,a) ∧
      (deleteUser env' (createUser env u moc).2).2 =
        ((withUser u moc).committed.deleteObject i).committed := by
  rw [createUser_eq,if_pos henv]
  rcases deleteUser_cases henv'.1 (withUser u moc).committed with ⟨hnone,_⟩ | ⟨i,a,ha,hhead,hdel⟩
  · simpa using hnone moc.next
  · exact ⟨i,a,ha,hhead,by rw [hdel,if_pos henv'.2]⟩

theorem values_withUser_split {u : UserModel} {moc : Context User} {i : ObjectID} {a : User}
    (ha : (withUser u moc).object? i = some a) :
    ⟨u.name,u.password⟩ ::ₘ moc.values =
      a ::ₘ ((withUser u moc).committed.deleteObject i).committed.storedValues := by
  rw [← values_withUser,Context.storedValues_committed]
  exact Context.values_deleteObject (c := (withUser u moc).committed) ha

theorem head?_putFirst {moc : Context User} {i : ObjectID} {a : User} (h : moc.object? i = some a) :
    (moc.executeFetchRequest (.putFirst (i,a)) fun _ => true).head? = some (i,a) := by
  have hmem : (i,a) ∈ moc.objects.filter fun _ => true := by
    simpa using Context.mem_objects.mpr h
  simp only [Context.executeFetchRequest,FetchOrder.putFirst,hmem,if_true,List.head?_cons]

/-- A fetch may return any user that was there before the new one, so that deleting
takes that one away. -/
theorem deletes_old_user (u : UserModel) {moc : Context User} {i : ObjectID} {a : User}
    (ha : moc.object? i = some a) :
    (withUser u moc).object? i = some a ∧ ∃ env', env'.Succeeds ∧
      (deleteUser env' (createUser calm u moc).2).2 =
        ((withUser u moc).committed.deleteObject i).committed := by
  have hne : i ≠ moc.next := Nat.ne_of_lt (Context.object?_lt ha)
  have hold : (withUser u moc).object? i = some a := by simp [hne,ha]
  have henv' : Attempt.Succeeds ⟨.putFirst (i,a),true,true⟩ := ⟨rfl,rfl⟩
  obtain ⟨j,b,_,hhead,hdel⟩ := deleteUser_createUser calm_succeeds.2 henv' u moc
  have hfirst : some (i,a) = some (j,b) := (head?_putFirst (by exact hold)).symm.trans hhead
  obtain ⟨rfl,rfl⟩ := Prod.mk.inj (Option.some.inj hfirst)
  exact ⟨hold,_,henv',hdel⟩

theorem calm_creates (u : UserModel) (moc : Context User) : (createUser calm u moc).1 = true := by
  simp [createUser_eq,calm]

theorem UndoesCreation.object?_eq_none {u : UserModel} {moc : Context User}
    (h : UndoesCreation u moc) (i : ObjectID) : moc.object? i = none := by
  by_contra hi
  obtain ⟨a,ha⟩ := Option.ne_none_iff_exists'.mp hi
  have hne : i ≠ moc.next := Nat.ne_of_lt (Context.object?_lt ha)
  obtain ⟨hold,env',henv',hdel⟩ := deletes_old_user u ha
  have hkept := (h calm env' (calm_creates u moc) henv').2 i hne
  rw [hdel,createUser_eq] at hkept
  simp [calm,hold] at hkept

theorem UndoesCreation.stored?_eq_none {u : UserModel} {moc : Context User}
    (h : UndoesCreation u moc) : ∀ i, moc.stored? i = none := by
  have hlive := h.object?_eq_none
  obtain ⟨i,a,ha,_,hdel⟩ := deleteUser_createUser calm_succeeds.2 calm_succeeds u moc
  have hrestored := (h calm calm (calm_creates u moc) calm_succeeds).1
  have hvalues := values_withUser_split ha
  rw [Context.values_eq_zero.mpr hlive] at hvalues
  rw [hdel] at hrestored
  rw [← Context.storedValues_eq_zero,← hrestored]
  have hcard := congrArg Multiset.card hvalues
  exact Multiset.card_eq_zero.mp (by simpa using hcard.symm)

/-- Deleting undoes creating exactly if there was no user before, stored or pending. -/
theorem deleteUser_undoes_createUser_iff (u : UserModel) (moc : Context User) :
    UndoesCreation u moc ↔ (∀ i, moc.stored? i = none) ∧ ∀ i, moc.object? i = none := by
  constructor
  · intro h
    exact ⟨h.stored?_eq_none,h.object?_eq_none⟩
  · rintro ⟨hstore,hlive⟩ env env' hcreated henv'
    have henv : env.saves = true := by simpa [createUser_eq] using hcreated
    obtain ⟨i,a,ha,_,hdel⟩ := deleteUser_createUser henv henv' u moc
    have hi : i = moc.next := by
      by_contra hne
      simp [hne,hlive] at ha
    subst hi
    rw [hdel,createUser_eq,if_pos henv]
    constructor
    · rw [Context.storedValues_committed,Context.storedValues_eq_zero.mpr hstore,
        Context.values_eq_zero]
      intro j
      by_cases hj : j = moc.next <;> simp [hj,hlive]
    · intro j hj
      simp [hj]

def oldestFirst : Attempt := ⟨⟨List.reverse,List.reverse_perm⟩,true,true⟩

theorem deleteUser_removes_bob :
    ¬ UndoesCreation ⟨some "ann",some "secret"⟩
      (performAll [(calm,.createUser ⟨some "bob",some "pw"⟩)]) := by
  intro h
  have hkept := (h calm oldestFirst (by decide) ⟨rfl,rfl⟩).2 0 (by decide)
  exact absurd hkept (by decide)

/-- Up to the identity of accounts, deleting undoes creating exactly if all stored
accounts have the credentials of the new one. -/
theorem storedValues_restored_iff {moc : Context User} (hmoc : moc.Settled) (u : UserModel) :
    (∀ env', env'.Succeeds →
        (deleteUser env' (createUser calm u moc).2).2.storedValues = moc.storedValues) ↔
      ∀ i a, moc.stored? i = some a → a = ⟨u.name,u.password⟩ := by
  rw [hmoc.storedValues]
  constructor
  · intro h i a ha
    obtain ⟨hold,env',henv',hdel⟩ := deletes_old_user u (by rw [← hmoc]; exact ha)
    have hrestored := h env' henv'
    have hvalues := values_withUser_split hold
    rw [← hdel,hrestored,Multiset.cons_inj_left] at hvalues
    exact hvalues.symm
  · intro h env' henv'
    obtain ⟨i,a,ha,_,hdel⟩ := deleteUser_createUser calm_succeeds.2 henv' u moc
    have hsame : a = ⟨u.name,u.password⟩ := by
      rw [object?_withUser] at ha
      split_ifs at ha
      · exact (Option.some.inj ha).symm
      · exact h i a (by rw [hmoc]; exact ha)
    have hvalues := values_withUser_split ha
    rw [hsame,Multiset.cons_inj_right] at hvalues
    rw [hdel,hvalues]

end Playground
end CourseraObjC
