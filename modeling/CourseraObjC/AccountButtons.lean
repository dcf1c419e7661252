import CourseraObjC.Runs
import Mathlib.Data.List.Basic

/-! GrammyPlus's three buttons. They are set when a button is tapped and when the screen is
loaded; the accounts come and go when a request for access has its outcome, and stay when
the program is started again. -/
namespace CourseraObjC
namespace GrammyPlus

open Runs

structure NXOAuth2Account where
  identifier : String
  accountType : String
  deriving DecidableEq

/-- The accounts are kept under their identifiers, and between launches. -/
structure NXOAuth2AccountStore where
  accounts : List NXOAuth2Account
  deriving DecidableEq

namespace NXOAuth2AccountStore

def accountsWithAccountType (store : NXOAuth2AccountStore) (accountType : String) :
    List NXOAuth2Account :=
  store.accounts.filter fun account => account.accountType = accountType

def removeAccount (store : NXOAuth2AccountStore) (account : NXOAuth2Account) :
    NXOAuth2AccountStore where
  accounts := store.accounts.filter fun old => old.identifier ≠ account.identifier

def addAccount (store : NXOAuth2AccountStore) (account : NXOAuth2Account) :
    NXOAuth2AccountStore where
  accounts := (store.removeAccount account).accounts++[account]

end NXOAuth2AccountStore

/-- The buttons are given by whether they are enabled; `pending` counts the requests for
access without an outcome. -/
structure ViewController where
  store : NXOAuth2AccountStore
  pending : ℕ
  loginButton : Bool
  logoutButton : Bool
  refreshButton : Bool
  deriving DecidableEq

inductive Event
  /-- The program is started again; so many requests can still have an outcome. -/
  | launch (pending : ℕ)
  | loginButtonTapped
  | logoutButtonTapped
  | accountAdded (identifier : String)
  | requestRefused
  | requestAbandoned
  deriving DecidableEq

/-- A tap on a button that is not enabled, or an outcome of no request. -/
inductive Impossible
  | impossible
  deriving DecidableEq

namespace ViewController

def instagramAccounts (s : ViewController) : List NXOAuth2Account :=
  s.store.accountsWithAccountType "Instagram"

def viewDidLoad (s : ViewController) : ViewController :=
  { s with logoutButton := false, refreshButton := false }

def launch (store : NXOAuth2AccountStore) (pending : ℕ) : ViewController :=
  viewDidLoad ⟨store,pending,true,true,true⟩

def loginButtonTapped (s : ViewController) : ViewController :=
  let s := { s with pending := s.pending+1 }
  { s with logoutButton := true, refreshButton := true, loginButton := false }

def logoutButtonTapped (s : ViewController) : ViewController :=
  let s := { s with logoutButton := false, refreshButton := false, loginButton := true }
  { s with store := s.instagramAccounts.foldl NXOAuth2AccountStore.removeAccount s.store }

/-- A button is tapped only while it is enabled, and an outcome is one of a pending request. -/
def possible (s : ViewController) : Event → Bool
  | .launch pending => pending ≤ s.pending
  | .loginButtonTapped => s.loginButton
  | .logoutButtonTapped => s.logoutButton
  | .accountAdded _ => 0 < s.pending
  | .requestRefused => 0 < s.pending
  | .requestAbandoned => 0 < s.pending

def react (s : ViewController) : Event → ViewController
  | .launch pending => launch s.store pending
  | .loginButtonTapped => s.loginButtonTapped
  | .logoutButtonTapped => s.logoutButtonTapped
  | .accountAdded identifier =>
    { s with store := s.store.addAccount ⟨identifier,"Instagram"⟩, pending := s.pending-1 }
  | .requestRefused => { s with pending := s.pending-1 }
  | .requestAbandoned => { s with pending := s.pending-1 }

def step (s : ViewController) (e : Event) : Except Impossible ViewController :=
  if s.possible e then .ok (s.react e) else .error .impossible

/-- One can log out and refresh exactly if there is an account, and log in exactly if not. -/
structure Reflects (s : ViewController) : Prop where
  logout : s.logoutButton = true ↔ s.instagramAccounts ≠ []
  refresh : s.refreshButton = true ↔ s.instagramAccounts ≠ []
  login : s.loginButton = true ↔ s.instagramAccounts = []

/-- The three buttons are two ways of one switch. -/
structure Linked (s : ViewController) : Prop where
  refresh : s.refreshButton = s.logoutButton
  login : s.loginButton = !s.logoutButton

end ViewController

/-- What the events so far say: the last tap since the last launch was on login, an account has
been added since the last tap on logout, and so many requests have had no outcome. -/
structure History where
  loginTapped : Bool
  accountAdded : Bool
  pending : ℕ
  deriving DecidableEq

namespace History

def empty : History := ⟨false,false,0⟩

def note (h : History) : Event → History
  | .launch pending => { h with loginTapped := false, pending := pending }
  | .loginButtonTapped => { h with loginTapped := true, pending := h.pending+1 }
  | .logoutButtonTapped => { h with loginTapped := false, accountAdded := false }
  | .accountAdded _ => { h with accountAdded := true, pending := h.pending-1 }
  | .requestRefused => { h with pending := h.pending-1 }
  | .requestAbandoned => { h with pending := h.pending-1 }

/-- The program is started without requests only when no account is left, and the last request
is granted only after a tap on login, and fails after one exactly if an account is there. -/
def Fits (h : History) : Event → Prop
  | .launch pending => pending = 0 → h.accountAdded = false
  | .loginButtonTapped => True
  | .logoutButtonTapped => True
  | .accountAdded _ => h.pending = 1 → h.loginTapped = true
  | .requestRefused => h.pending = 1 → h.loginTapped = h.accountAdded
  | .requestAbandoned => h.pending = 1 → h.loginTapped = h.accountAdded

instance (h : History) : (e : Event) → Decidable (h.Fits e)
  | .launch pending => inferInstanceAs (Decidable (pending = 0 → h.accountAdded = false))
  | .loginButtonTapped => isTrue trivial
  | .logoutButtonTapped => isTrue trivial
  | .accountAdded _ => inferInstanceAs (Decidable (h.pending = 1 → h.loginTapped = true))
  | .requestRefused =>
    inferInstanceAs (Decidable (h.pending = 1 → h.loginTapped = h.accountAdded))
  | .requestAbandoned =>
    inferInstanceAs (Decidable (h.pending = 1 → h.loginTapped = h.accountAdded))

/-- The switch shows the last tap, and the store what was added and removed. -/
structure Tells (h : History) (s : ViewController) : Prop where
  linked : s.Linked
  switch : s.logoutButton = h.loginTapped
  accounts : s.instagramAccounts ≠ [] ↔ h.accountAdded = true
  pending : s.pending = h.pending

end History

variable {s t : ViewController} {h : History}

/-! ### The store -/

theorem removeAll_accounts (removed : List NXOAuth2Account) (store : NXOAuth2AccountStore) :
    (removed.foldl NXOAuth2AccountStore.removeAccount store).accounts =
      store.accounts.filter fun old => ∀ account ∈ removed, old.identifier ≠ account.identifier := by
  induction removed generalizing store with
  | nil => simp
  | cons account removed ih =>
    rw [List.foldl_cons,ih,NXOAuth2AccountStore.removeAccount,List.filter_filter]
    simp [Bool.and_comm]

theorem instagramAccounts_logoutButtonTapped (s : ViewController) :
    s.logoutButtonTapped.instagramAccounts = [] := by
  show NXOAuth2AccountStore.accountsWithAccountType
    (s.instagramAccounts.foldl NXOAuth2AccountStore.removeAccount s.store) "Instagram" = []
  rw [NXOAuth2AccountStore.accountsWithAccountType,removeAll_accounts,List.filter_filter,
    List.filter_eq_nil_iff]
  intro account haccount hkept
  simp only [Bool.and_eq_true,decide_eq_true_eq] at hkept
  have hinstagram : account ∈ s.instagramAccounts := by
    simp [ViewController.instagramAccounts,NXOAuth2AccountStore.accountsWithAccountType,haccount,
      hkept.1]
  exact hkept.2 account hinstagram rfl

theorem accountsWithAccountType_addAccount (store : NXOAuth2AccountStore) (identifier : String) :
    (store.addAccount ⟨identifier,"Instagram"⟩).accountsWithAccountType "Instagram" ≠ [] := by
  simp [NXOAuth2AccountStore.accountsWithAccountType,NXOAuth2AccountStore.addAccount]

/-! ### Runs -/

theorem ViewController.Linked.reflects_iff (h : s.Linked) :
    s.Reflects ↔ (s.logoutButton = true ↔ s.instagramAccounts ≠ []) := by
  constructor
  · exact fun hs => hs.logout
  · intro hs
    refine ⟨hs,by rw [h.refresh,hs],?_⟩
    rw [h.login,Bool.not_eq_true',← Bool.not_eq_true,hs,ne_eq,not_not]

theorem step_eq_ok {e : Event} : s.step e = .ok t ↔ s.possible e = true ∧ t = s.react e :=
  guard_eq_ok

theorem linked_react (e : Event) (hs : s.Linked) : (s.react e).Linked := by
  cases e with
  | launch pending => exact ⟨rfl,rfl⟩
  | loginButtonTapped => exact ⟨rfl,rfl⟩
  | logoutButtonTapped => exact ⟨rfl,rfl⟩
  | accountAdded identifier => exact ⟨hs.refresh,hs.login⟩
  | requestRefused => exact ⟨hs.refresh,hs.login⟩
  | requestAbandoned => exact ⟨hs.refresh,hs.login⟩

theorem pending_sub_one {pending : ℕ} (h : decide (0 < pending) = true) :
    pending-1 = 0 ↔ pending = 1 := by
  have hpos : 0 < pending := by simpa using h
  omega

theorem tells_note (e : Event) (hs : h.Tells s) : (h.note e).Tells (s.react e) := by
  refine ⟨linked_react e hs.linked,?_,?_,?_⟩
  · cases e with
    | launch pending => rfl
    | loginButtonTapped => rfl
    | logoutButtonTapped => rfl
    | accountAdded identifier => exact hs.switch
    | requestRefused => exact hs.switch
    | requestAbandoned => exact hs.switch
  · cases e with
    | launch pending => exact hs.accounts
    | loginButtonTapped => exact hs.accounts
    | logoutButtonTapped =>
      refine iff_of_false (fun hne => hne (instagramAccounts_logoutButtonTapped s)) ?_
      exact Bool.false_ne_true
    | accountAdded identifier =>
      exact iff_of_true (accountsWithAccountType_addAccount s.store identifier) rfl
    | requestRefused => exact hs.accounts
    | requestAbandoned => exact hs.accounts
  · cases e with
    | launch pending => rfl
    | loginButtonTapped => exact congrArg (·+1) hs.pending
    | logoutButtonTapped => exact hs.pending
    | accountAdded identifier => exact congrArg (·-1) hs.pending
    | requestRefused => exact congrArg (·-1) hs.pending
    | requestAbandoned => exact congrArg (·-1) hs.pending

theorem History.Tells.reflects_iff (hs : h.Tells s) :
    s.Reflects ↔ h.loginTapped = h.accountAdded := by
  rw [hs.linked.reflects_iff,hs.switch,hs.accounts,← Bool.eq_iff_iff]

/-- What the events say after a step is what `Fits` asks of them before it. -/
theorem reflects_react_iff (e : Event) (hs : h.Tells s) (hpossible : s.possible e = true) :
    ((s.react e).pending = 0 → (s.react e).Reflects) ↔ h.Fits e := by
  have hnote := tells_note e hs
  rw [hnote.reflects_iff,hnote.pending]
  cases e with
  | launch pending =>
    show (pending = 0 → false = h.accountAdded) ↔ (pending = 0 → h.accountAdded = false)
    rw [eq_comm (a:=false)]
  | loginButtonTapped =>
    show (h.pending+1 = 0 → _) ↔ True
    simp
  | logoutButtonTapped => exact iff_of_true (fun _ => rfl) trivial
  | accountAdded identifier =>
    show (h.pending-1 = 0 → h.loginTapped = true) ↔ _
    rw [pending_sub_one (hs.pending ▸ hpossible)]
    rfl
  | requestRefused =>
    show (h.pending-1 = 0 → h.loginTapped = h.accountAdded) ↔ _
    rw [pending_sub_one (hs.pending ▸ hpossible)]
    rfl
  | requestAbandoned =>
    show (h.pending-1 = 0 → h.loginTapped = h.accountAdded) ↔ _
    rw [pending_sub_one (hs.pending ▸ hpossible)]
    rfl

/-- Along a run from a launch the buttons reflect the store whenever no request is pending
exactly if there was no account at that launch and the taps, the launches and the outcomes
of the requests come in a fitting order. -/
theorem buttons_reflect_iff {store : NXOAuth2AccountStore} {es : List Event}
    (hrun : run ViewController.step (.launch store 0) es = .ok t) :
    Always ViewController.step (fun s => s.pending = 0 → s.Reflects) (.launch store 0) es ↔
      store.accountsWithAccountType "Instagram" = [] ∧
        Noted History.note History.Fits .empty es := by
  have hlaunch : (ViewController.launch store 0).Linked := ⟨rfl,rfl⟩
  have hfirst : ((ViewController.launch store 0).pending = 0 →
      (ViewController.launch store 0).Reflects) ↔
        store.accountsWithAccountType "Instagram" = [] := by
    rw [hlaunch.reflects_iff]
    show (0 = 0 → (false = true ↔ store.accountsWithAccountType "Instagram" ≠ [])) ↔ _
    simp
  by_cases hempty : store.accountsWithAccountType "Instagram" = []
  · have htells : History.empty.Tells (.launch store 0) :=
      ⟨hlaunch,rfl,iff_of_false (not_not.mpr hempty) Bool.false_ne_true,rfl⟩
    rw [always_iff_noted (I := History.Tells) ?_ ?_ htells hrun,hfirst]
    · intro e h s t hs hstep
      rw [(step_eq_ok.mp hstep).2]
      exact tells_note e hs
    · intro e h s t hs hstep
      obtain ⟨hpossible,rfl⟩ := step_eq_ok.mp hstep
      exact reflects_react_iff e hs hpossible
  · exact iff_of_false (fun hall => hempty (hfirst.mp hall.head)) fun hall => hempty hall.1

def loginAndLogout : List Event :=
  [.loginButtonTapped,.accountAdded "me",.logoutButtonTapped]

theorem buttons_reflect_loginAndLogout :
    Always ViewController.step (fun s => s.pending = 0 → s.Reflects) (.launch ⟨[]⟩ 0)
      loginAndLogout :=
  (buttons_reflect_iff (show run ViewController.step (.launch ⟨[]⟩ 0) loginAndLogout = .ok _ from rfl)).mpr
    ⟨rfl,by decide⟩

/-- A refused request leaves the buttons as the login tap has set them. -/
theorem buttons_after_refusal : ∃ s,
    run ViewController.step (.launch ⟨[]⟩ 0) [.loginButtonTapped,.requestRefused] = .ok s ∧
      s.pending = 0 ∧ ¬ s.Reflects := by
  refine ⟨_,rfl,rfl,fun h => ?_⟩
  exact absurd (h.logout.mp rfl) (by decide)

end GrammyPlus
end CourseraObjC
