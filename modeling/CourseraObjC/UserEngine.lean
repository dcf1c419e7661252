import CourseraObjC.ManagedContext

/-! Playground's user store, `CoreDataEngine`, over an object context of users. Each call
meets an environment that decides the order of unsorted fetches and whether fetching
and saving succeed; no attribute of a user is validated. -/
namespace CourseraObjC
namespace Playground

structure UserModel where
  name : Option String
  password : Option String
  deriving DecidableEq

/-- `valueForKey:` on the dictionary answers `nil` for a missing key. -/
def UserModel.initWithDictionary (dict : String → Option String) : UserModel :=
  ⟨dict "name",dict "password"⟩

structure User where
  name : Option String
  password : Option String
  deriving DecidableEq

/-- Both attributes are optional in the data model. -/
def User.valid : User → Bool := fun _ => true

/-- What the call meets: the order of its fetch, and whether the fetch and the save
succeed. -/
structure Attempt where
  order : FetchOrder (ObjectID × User)
  fetches : Bool
  saves : Bool

def createUser (env : Attempt) (userModel : UserModel) (moc : Context User) :
    Bool × Context User :=
  let user := moc.next
  let inserted := moc.insertNewObject ⟨none,none⟩
  let named := inserted.modify user fun a => { a with name := userModel.name }
  let filled := named.modify user fun a => { a with password := userModel.password }
  match filled.save User.valid env.saves with
  | some saved => (true,saved)
  | none => (false,filled)

def checkAvailability (env : Attempt) (moc : Context User) : Bool :=
  if env.fetches then
    decide ((moc.executeFetchRequest env.order fun _ => true).length ≠ 0)
  else false

/-- The predicate is `name == userModel.name` and nothing else. -/
def login (env : Attempt) (userModel : UserModel) (moc : Context User) : Bool :=
  if env.fetches then
    decide ((moc.executeFetchRequest env.order fun a => a.name = userModel.name).length ≠ 0)
  else false

/-- The login screen's own step: both fields go into the model it logs in with. -/
def loginTapped (env : Attempt) (emailField passwordField : String) (moc : Context User) : Bool :=
  login env (.initWithDictionary fun key =>
    if key = "name" then some emailField else if key = "password" then some passwordField else none)
    moc

inductive DeleteLog
  | unableToFetch | noUser | unableToDelete | userDeleted
  deriving DecidableEq

def deleteUser (env : Attempt) (moc : Context User) : DeleteLog × Context User :=
  if env.fetches then
    match moc.executeFetchRequest env.order fun _ => true with
    | [] => (.noUser,moc)
    | mo::_ =>
      let deleted := moc.deleteObject mo.1
      match deleted.save User.valid env.saves with
      | some saved => (.userDeleted,saved)
      | none => (.unableToDelete,deleted)
  else (.unableToFetch,moc)

inductive Call
  | createUser (userModel : UserModel)
  | deleteUser
  deriving DecidableEq

def Call.perform (env : Attempt) (moc : Context User) : Call → Context User
  | .createUser u => (Playground.createUser env u moc).2
  | .deleteUser => (Playground.deleteUser env moc).2

def performAll (calls : List (Attempt × Call)) : Context User :=
  calls.foldl (fun moc x => x.2.perform x.1 moc) Context.empty

def Attempt.Succeeds (env : Attempt) : Prop := env.fetches = true ∧ env.saves = true

/-! ### What each call does -/

@[simp] theorem saveable (moc : Context User) : moc.Saveable User.valid := by
  intro i _
  cases moc.object? i <;> rfl

@[simp] theorem save_eq (moc : Context User) (io : Bool) :
    moc.save User.valid io = if io = true then some moc.committed else none := by
  simp [Context.save]

/-- The context `createUser:` asks to be saved: one new user with the model's fields. -/
def withUser (u : UserModel) (moc : Context User) : Context User :=
  ((moc.insertNewObject ⟨none,none⟩).modify moc.next fun a => { a with name := u.name }).modify
    moc.next fun a => { a with password := u.password }

theorem createUser_eq (env : Attempt) (u : UserModel) (moc : Context User) :
    createUser env u moc =
      (env.saves,if env.saves = true then (withUser u moc).committed else withUser u moc) := by
  unfold createUser
  cases h : env.saves <;> simp [withUser]

@[simp] theorem object?_withUser (u : UserModel) (moc : Context User) (i : ObjectID) :
    (withUser u moc).object? i =
      if i = moc.next then some ⟨u.name,u.password⟩ else moc.object? i := by
  by_cases h : i = moc.next <;> simp [withUser,h]
@[simp] theorem stored?_withUser (u : UserModel) (moc : Context User) (i : ObjectID) :
    (withUser u moc).stored? i = moc.stored? i := by
  simp [withUser]

theorem objects_withUser (u : UserModel) (moc : Context User) :
    (withUser u moc).objects = (moc.next,⟨u.name,u.password⟩)::moc.objects := by
  have hinserted : (moc.insertNewObject ⟨none,none⟩).object? moc.next = some ⟨none,none⟩ := by simp
  have hnamed : ((moc.insertNewObject ⟨none,none⟩).modify moc.next
      fun a => { a with name := u.name }).object? moc.next = some ⟨u.name,none⟩ := by simp
  have hlive : (withUser u moc).live = (moc.insertNewObject ⟨u.name,u.password⟩).live := by
    rw [withUser,Context.modify_live _ hnamed,Context.modify_live _ hinserted]
    simp [Context.insertNewObject]
  rw [← Context.objects_insertNewObject,Context.objects,hlive,Context.objects]

theorem values_withUser (u : UserModel) (moc : Context User) :
    (withUser u moc).values = ⟨u.name,u.password⟩ ::ₘ moc.values := by
  simp [Context.values,objects_withUser]

/-- `login:` answers whether some user has the name; the password plays no part. -/
theorem login_iff {env : Attempt} (henv : env.fetches = true) (u : UserModel) (moc : Context User) :
    login env u moc = true ↔ ∃ i a, moc.object? i = some a ∧ a.name = u.name := by
  simp only [login,henv,if_true,decide_eq_true_eq,ne_eq,List.length_eq_zero_iff]
  rw [← ne_eq,Context.executeFetchRequest_ne_nil]
  simp

theorem deleteUser_cases {env : Attempt} (henv : env.fetches = true) (moc : Context User) :
    (∀ i, moc.object? i = none) ∧ deleteUser env moc = (.noUser,moc) ∨
      ∃ i a, moc.object? i = some a ∧
        (moc.executeFetchRequest env.order fun _ => true).head? = some (i,a) ∧
        deleteUser env moc =
          if env.saves = true then (.userDeleted,(moc.deleteObject i).committed)
          else (.unableToDelete,moc.deleteObject i) := by
  cases hfetch : moc.executeFetchRequest env.order fun _ => true with
  | nil =>
    refine Or.inl ⟨fun i => ?_,by simp [deleteUser,henv,hfetch]⟩
    by_contra hsome
    obtain ⟨a,ha⟩ := Option.ne_none_iff_exists'.mp hsome
    exact Context.executeFetchRequest_ne_nil.mpr ⟨i,a,ha,rfl⟩ hfetch
  | cons x rest =>
    obtain ⟨i,a⟩ := x
    refine Or.inr ⟨i,a,?_,rfl,?_⟩
    · exact (Context.mem_executeFetchRequest.mp (by rw [hfetch]; simp)).1
    · cases hs : env.saves <;> simp [deleteUser,henv,hfetch,hs]

end Playground
end CourseraObjC
