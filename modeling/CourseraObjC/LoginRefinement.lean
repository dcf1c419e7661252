import CourseraObjC.AccountButtons
import CourseraObjC.AccountKeychain

/-! GrammyPlus over the store of OAuth accounts: its screen, the pages that it has opened in the
browser, and the store with its keychain. The program with a list of accounts and a number of
pending requests is what one sees of it. -/
namespace CourseraObjC
namespace GrammyPlus

open Runs QueryParameters

def instagram : Text := "Instagram".toList

/-- `pages` counts the pages of the authorization server that can still send a redirect. -/
structure Program where
  store : OAuth2.NXOAuth2AccountStore
  pages : ℕ
  loginButton : Bool
  logoutButton : Bool
  refreshButton : Bool

inductive ProgramEvent
  | launch
  | loginButtonTapped
  | logoutButtonTapped
  | redirected (url : Text)
  | pageClosed
  | tokenAnswered (newToken : Option OAuth2.NXOAuth2AccessToken) (identifier : Text)
  | tokenFailed
  | orphanEnded
  | refreshAccessToken (identifier : Text)
  | retryAfterDelay (identifier : Text)
  | refreshAnswered (identifier : Text) (newToken : Option OAuth2.NXOAuth2AccessToken)
  | refreshFailed (identifier : Text) (error : OAuth2.ConnectionError)
  | tokenRejected (identifier : Text)

namespace Program

/-- The application delegate configures the store, and the screen is loaded. -/
def launch (keychain : Dictionary Text OAuth2.ArchivedAccount) (pages : ℕ) : Program where
  store := {OAuth2.NXOAuth2AccountStore.init keychain with
    configurations := AList.singleton instagram OAuth2.instagramConfiguration}
  pages := pages
  loginButton := true
  logoutButton := false
  refreshButton := false

def withStore (p : Program) (x : Except OAuth2.Halt OAuth2.NXOAuth2AccountStore) :
    Except OAuth2.Halt Program := do
  return {p with store := ← x}

def loginButtonTapped (p : Program) : Except OAuth2.Halt Program :=
  if p.loginButton then do
    let p ← p.withStore (p.store.requestAccess instagram)
    return {p with
      pages := p.pages+1
      logoutButton := true
      refreshButton := true
      loginButton := false}
  else .error .impossible

def logoutButtonTapped (p : Program) : Except OAuth2.Halt Program :=
  if p.logoutButton then
    .ok {p with
      store := (p.store.accountsWithAccountType instagram).foldl
        OAuth2.NXOAuth2AccountStore.removeAccount p.store
      logoutButton := false
      refreshButton := false
      loginButton := true}
  else .error .impossible

def redirected (p : Program) (url : Text) : Except OAuth2.Halt Program :=
  if p.pages = 0 then .error .impossible
  else {p with pages := p.pages-1}.withStore (p.store.handleRedirectURL url
    p.store.configurations.keys (p.store.redirectTypes url))

def step (p : Program) : ProgramEvent → Except OAuth2.Halt Program
  | .launch => .ok (launch p.store.keychain p.pages)
  | .loginButtonTapped => p.loginButtonTapped
  | .logoutButtonTapped => p.logoutButtonTapped
  | .redirected url => p.redirected url
  | .pageClosed => if p.pages = 0 then .error .impossible else .ok {p with pages := p.pages-1}
  | .tokenAnswered newToken identifier =>
    p.withStore (p.store.step (.tokenAnswered instagram newToken identifier))
  | .tokenFailed => p.withStore (p.store.step (.tokenFailed instagram))
  | .orphanEnded => p.withStore (p.store.step .orphanEnded)
  | .refreshAccessToken identifier => p.withStore (p.store.step (.refreshAccessToken identifier))
  | .retryAfterDelay identifier => p.withStore (p.store.step (.retryAfterDelay identifier))
  | .refreshAnswered identifier newToken =>
    p.withStore (p.store.step (.refreshAnswered identifier newToken))
  | .refreshFailed identifier error =>
    p.withStore (p.store.step (.refreshFailed identifier error))
  | .tokenRejected identifier => p.withStore (p.store.step (.tokenRejected identifier))

end Program

def outstanding (s : OAuth2.NXOAuth2AccountStore) : ℕ :=
  match s.pendingOAuthClients.lookup instagram with
  | some client => (if client.authConnection.isSome then 1 else 0)+s.orphaned
  | none => s.orphaned

def typeOf (s : OAuth2.NXOAuth2AccountStore) (identifier : Text) : Option Text :=
  (s.accountsDict.lookup identifier).map OAuth2.NXOAuth2Account.accountType

/-- What is seen of the program: its accounts, its buttons, and how many logins have had no
outcome. -/
structure Shows (p : Program) (v : ViewController) : Prop where
  accounts : ∀ account : NXOAuth2Account, account ∈ v.store.accounts ↔
    typeOf p.store account.identifier.toList = some account.accountType.toList
  pending : v.pending = p.pages+outstanding p.store
  login : v.loginButton = p.loginButton
  logout : v.logoutButton = p.logoutButton
  refresh : v.refreshButton = p.refreshButton

/-- One account type is configured, and its client does no more than log in. -/
structure OnlyInstagram (s : OAuth2.NXOAuth2AccountStore) : Prop where
  configured : s.configurations = AList.singleton instagram OAuth2.instagramConfiguration
  clean : s.PendingClean
  pending : ∀ client, s.pendingOAuthClients.lookup instagram = some client →
    client.authConnection = none ∨ client.authConnection = some .tokenRequest

def LosesNoAccount (p : Program) : ProgramEvent → Prop
  | .refreshFailed identifier error => p.store.AtClient identifier fun _ client =>
    client.retries error = false → error = .http 401 → client.accessToken = none
  | .tokenRejected identifier => p.store.AtClient identifier fun _ client =>
    client.delegate = .account → client.accessToken = none
  | _ => True

variable {p q : Program} {v : ViewController} {s t : OAuth2.NXOAuth2AccountStore}
  {identifier : Text}

theorem typeOf_setAccount {old account : OAuth2.NXOAuth2Account}
    (hold : s.accountsDict.lookup identifier = some old)
    (htype : account.accountType = old.accountType) :
    typeOf (s.setAccount identifier account) = typeOf s := by
  funext i
  rw [typeOf,typeOf,OAuth2.NXOAuth2AccountStore.lookup_setAccount]
  split_ifs with hi
  · subst hi
    rw [hold,Option.map_some,Option.map_some,htype]
  · rfl

theorem withStore_eq_ok {x : Except OAuth2.Halt OAuth2.NXOAuth2AccountStore} :
    p.withStore x = .ok q ↔ ∃ s, x = .ok s ∧ q = {p with store := s} := by
  rw [Program.withStore]
  cases x with
  | error halt => simp [bind,Except.bind]
  | ok s => simp [bind,Except.bind,pure,Except.pure,eq_comm]

/-- Nothing is seen of a step that changes neither the accounts nor the logins. -/
theorem Shows.unseen (h : Shows p v) (htypes : typeOf s = typeOf p.store)
    (houtstanding : outstanding s = outstanding p.store) : Shows {p with store := s} v := by
  refine ⟨fun account => ?_,?_,h.login,h.logout,h.refresh⟩
  · rw [h.accounts account,htypes]
  · rw [h.pending,houtstanding]

/-- What a step of a client does that is not told of its login. -/
structure Unseen (s t : OAuth2.NXOAuth2AccountStore) : Prop where
  types : typeOf t = typeOf s
  configurations : t.configurations = s.configurations
  pending : t.pendingOAuthClients = s.pendingOAuthClients
  orphaned : t.orphaned = s.orphaned

theorem Unseen.outstanding (h : Unseen s t) : outstanding t = outstanding s := by
  rw [GrammyPlus.outstanding,GrammyPlus.outstanding,h.pending,h.orphaned]

theorem Unseen.onlyInstagram (h : Unseen s t) (hs : OnlyInstagram s) : OnlyInstagram t := by
  refine ⟨h.configurations.trans hs.configured,fun accountType client hclient => ?_,
    fun client hclient => ?_⟩
  · rw [h.pending] at hclient
    exact hs.clean accountType client hclient
  · rw [h.pending] at hclient
    exact hs.pending client hclient

theorem unseen_setAccount {old account : OAuth2.NXOAuth2Account}
    (hold : s.accountsDict.lookup identifier = some old)
    (htype : account.accountType = old.accountType) : Unseen s (s.setAccount identifier account) :=
  ⟨typeOf_setAccount hold htype,rfl,rfl,rfl⟩

theorem unseen_addAccount {old account : OAuth2.NXOAuth2Account}
    (hold : s.accountsDict.lookup identifier = some old)
    (htype : account.accountType = old.accountType) : Unseen s (s.addAccount identifier account) :=
  ⟨typeOf_setAccount hold htype,rfl,rfl,rfl⟩

def AtAccount : ProgramEvent → Prop
  | .refreshAccessToken _ => True
  | .retryAfterDelay _ => True
  | .refreshAnswered _ _ => True
  | .refreshFailed _ _ => True
  | .tokenRejected _ => True
  | _ => False

theorem unseen_step {e : ProgramEvent} (he : AtAccount e) (hloses : LosesNoAccount p e)
    (h : p.step e = .ok q) : ∃ s, Unseen p.store s ∧ q = {p with store := s} := by
  cases e with
  | refreshAccessToken identifier =>
    obtain ⟨s,hs,rfl⟩ := withStore_eq_ok.mp h
    obtain ⟨account,client,client',haccount,_,_,_,rfl⟩ :=
      OAuth2.NXOAuth2AccountStore.refreshAccessToken_cases hs
    exact ⟨_,unseen_setAccount haccount (by rfl),rfl⟩
  | retryAfterDelay identifier =>
    obtain ⟨s,hs,rfl⟩ := withStore_eq_ok.mp h
    obtain ⟨account,client,client',haccount,_,_,_,rfl⟩ :=
      OAuth2.NXOAuth2AccountStore.retryAfterDelay_cases hs
    exact ⟨_,unseen_setAccount haccount (by rfl),rfl⟩
  | refreshAnswered identifier newToken =>
    obtain ⟨s,hs,rfl⟩ := withStore_eq_ok.mp h
    obtain ⟨account,client,token,client',haccount,_,_,_,_,hcases⟩ :=
      OAuth2.NXOAuth2AccountStore.refreshAnswered_cases hs
    rcases hcases with ⟨_,rfl⟩ | ⟨_,rfl⟩
    · exact ⟨_,unseen_setAccount haccount (by rfl),rfl⟩
    · exact ⟨_,unseen_addAccount haccount (by rfl),rfl⟩
  | refreshFailed identifier error =>
    obtain ⟨s,hs,rfl⟩ := withStore_eq_ok.mp h
    obtain ⟨account,client,client',haccount,hclient,_,_,hcases⟩ :=
      OAuth2.NXOAuth2AccountStore.refreshFailed_cases hs
    have hnone := (OAuth2.NXOAuth2AccountStore.atClient_iff haccount hclient).mp hloses
    rcases hcases with ⟨_,rfl⟩ | ⟨hretries,_,⟨herror,hsome,rfl⟩ | ⟨_,rfl⟩⟩
    · exact ⟨_,unseen_setAccount haccount (by rfl),rfl⟩
    · exact absurd (hnone hretries herror) hsome
    · exact ⟨_,unseen_setAccount haccount (by rfl),rfl⟩
  | tokenRejected identifier =>
    obtain ⟨s,hs,rfl⟩ := withStore_eq_ok.mp h
    obtain ⟨account,client,haccount,hclient,hcases⟩ :=
      OAuth2.NXOAuth2AccountStore.tokenRejected_cases hs
    have hnone := (OAuth2.NXOAuth2AccountStore.atClient_iff haccount hclient).mp hloses
    rcases hcases with ⟨_,rfl⟩ | ⟨_,_,rfl⟩ | ⟨hsome,hown,rfl⟩
    · exact ⟨_,unseen_setAccount haccount (by rfl),rfl⟩
    · exact ⟨_,unseen_setAccount haccount (by rfl),rfl⟩
    · exact absurd (hnone hown) hsome
  | _ => exact absurd he id

/-- What a step of the login does: to the accounts nothing, and `n` connections more. -/
structure LogsIn (s t : OAuth2.NXOAuth2AccountStore) (n : ℕ) : Prop where
  types : typeOf t = typeOf s
  only : OnlyInstagram t
  outstanding : outstanding t = outstanding s+n

theorem onlyInstagram_insert {client : OAuth2.NXOAuth2Client} (hs : OnlyInstagram s)
    (hclean : client.delegate = .store ∧ client.accessToken = none)
    (hpending : client.authConnection = none ∨ client.authConnection = some .tokenRequest) :
    OnlyInstagram {s with
      pendingOAuthClients := s.pendingOAuthClients.insert instagram client} := by
  refine ⟨hs.configured,OAuth2.NXOAuth2AccountStore.pendingClean_insert hs.clean hclean,
    fun c hc => ?_⟩
  rw [AList.lookup_insert] at hc
  obtain rfl := Option.some.inj hc
  exact hpending

theorem outstanding_of_pending {client : OAuth2.NXOAuth2Client}
    (h : s.pendingOAuthClients.lookup instagram = some client) :
    outstanding s = (if client.authConnection.isSome then 1 else 0)+s.orphaned := by
  rw [outstanding,h]

theorem logsIn_pending {client : OAuth2.NXOAuth2Client} (hs : OnlyInstagram s)
    (h : s.pendingOAuthClientForAccountType instagram = .ok (t,client)) :
    LogsIn s t 0 ∧ t.pendingOAuthClients.lookup instagram = some client := by
  rcases OAuth2.NXOAuth2AccountStore.pendingOAuthClient_cases h with
    ⟨hlookup,rfl⟩ | ⟨configuration,hnone,rfl,rfl⟩
  · exact ⟨⟨rfl,hs,rfl⟩,hlookup⟩
  · have honly := onlyInstagram_insert hs
      (show (OAuth2.NXOAuth2AccountStore.newClient configuration).delegate = .store ∧
        (OAuth2.NXOAuth2AccountStore.newClient configuration).accessToken = none from ⟨rfl,rfl⟩)
      (Or.inl rfl)
    have houtstanding : outstanding s = s.orphaned := by
      rw [outstanding,hnone]
    refine ⟨⟨rfl,honly,?_⟩,AList.lookup_insert _⟩
    rw [outstanding_of_pending (AList.lookup_insert _),houtstanding]
    simp [OAuth2.NXOAuth2AccountStore.newClient]

theorem logsIn_requestAccess (hs : OnlyInstagram s) (h : s.requestAccess instagram = .ok t) :
    LogsIn s t 0 := by
  rw [OAuth2.NXOAuth2AccountStore.requestAccess] at h
  obtain ⟨⟨s',client⟩,hclient,h⟩ := bind_eq_ok.mp h
  obtain ⟨hlogs,hlookup⟩ := logsIn_pending hs hclient
  have hnone := (hlogs.only.clean instagram client hlookup).2
  dsimp only at h
  rw [if_pos (by simp [hnone])] at h
  obtain rfl := Except.ok.inj h
  rw [OAuth2.NXOAuth2AccountStore.oauthClientNeedsAuthentication]
  cases s'.configurations.lookup instagram with
  | none => exact hlogs
  | some configuration =>
    exact ⟨hlogs.types,⟨hlogs.only.configured,hlogs.only.clean,hlogs.only.pending⟩,
      hlogs.outstanding⟩

theorem logsIn_dropPending {client : OAuth2.NXOAuth2Client} (hs : OnlyInstagram s)
    (h : s.pendingOAuthClients.lookup instagram = some client) :
    LogsIn s (s.dropPending instagram client) 0 := by
  have hnone : (s.dropPending instagram client).pendingOAuthClients.lookup instagram = none :=
    AList.lookup_erase instagram s.pendingOAuthClients
  refine ⟨rfl,⟨hs.configured,OAuth2.NXOAuth2AccountStore.pendingClean_dropPending hs.clean,
    fun c hc => ?_⟩,?_⟩
  · rw [hnone] at hc
    exact absurd hc (by simp)
  · rw [outstanding_of_pending h,outstanding,hnone]
    dsimp only [OAuth2.NXOAuth2AccountStore.dropPending]
    split_ifs
    · omega
    · omega

theorem LogsIn.trans {u : OAuth2.NXOAuth2AccountStore} {n : ℕ} (h : LogsIn s t 0)
    (h' : LogsIn t u n) : LogsIn s u n := by
  refine ⟨h'.types.trans h.types,h'.only,?_⟩
  have hfirst := h.outstanding
  have hsecond := h'.outstanding
  omega

/-- A redirect begins a request for a token, or the login that it is for has its outcome. -/
theorem logsIn_openFirst {url : Text} {members : List Text} (hs : OnlyInstagram s)
    (hmembers : members = [] ∨ members = [instagram])
    (h : OAuth2.NXOAuth2AccountStore.openFirst url members s = .ok t) :
    LogsIn s t 0 ∨ LogsIn s t 1 := by
  rcases hmembers with rfl | rfl
  · obtain rfl := Except.ok.inj h
    exact Or.inl ⟨rfl,hs,rfl⟩
  · rw [OAuth2.NXOAuth2AccountStore.openFirst] at h
    obtain ⟨⟨s',client⟩,hclient,h⟩ := bind_eq_ok.mp h
    obtain ⟨hlogs,hlookup⟩ := logsIn_pending hs hclient
    dsimp only at h
    split at h
    · exact absurd h (by simp)
    · next hopened =>
      have hrunning := OAuth2.idle_of_requestToken hopened
      obtain rfl := Except.ok.inj h
      have hclean := hlogs.only.clean instagram client hlookup
      refine Or.inr (hlogs.trans ⟨rfl,onlyInstagram_insert hlogs.only hclean (Or.inr rfl),?_⟩)
      rw [outstanding_of_pending (AList.lookup_insert _),outstanding_of_pending hlookup,
        hrunning]
      dsimp only [Option.isSome_some,Option.isSome_none]
      rw [if_pos rfl,if_neg (by decide)]
      omega
    · obtain rfl := Except.ok.inj h
      exact Or.inl (hlogs.trans (logsIn_dropPending hlogs.only hlookup))
    · obtain rfl := Except.ok.inj h
      exact Or.inl hlogs

theorem redirectTypes_cases (hs : OnlyInstagram s) (url : Text) :
    s.redirectTypes url = [] ∨ s.redirectTypes url = [instagram] := by
  have hkeys : s.configurations.keys = [instagram] := by
    rw [hs.configured]
    rfl
  rw [OAuth2.NXOAuth2AccountStore.redirectTypes,hkeys]
  cases hmatch : s.matchesRedirect url instagram with
  | true => exact Or.inr (by simp [hmatch])
  | false => exact Or.inl (by simp [hmatch])

theorem logsIn_handleRedirectURL {url : Text} {enumerated : List Text} (hs : OnlyInstagram s)
    (h : s.handleRedirectURL url enumerated (s.redirectTypes url) = .ok t) :
    LogsIn s t 0 ∨ LogsIn s t 1 := by
  rw [OAuth2.NXOAuth2AccountStore.handleRedirectURL] at h
  split_ifs at h
  cases hfixed : s.fixedRedirectURL url enumerated with
  | none =>
    rw [hfixed] at h
    obtain rfl := Except.ok.inj h
    exact Or.inl ⟨rfl,hs,rfl⟩
  | some fixedRedirectURL =>
    rw [hfixed] at h
    exact logsIn_openFirst hs (redirectTypes_cases hs url) h

/-! ### One step of the program and what is seen of it -/

/-- What the program with a list of accounts does when the program over the store does `e`:
nothing, or one event of its own. -/
def Simulates (v : ViewController) (q : Program) : Prop :=
  ∃ es w, run ViewController.step v es = .ok w ∧ Shows q w

theorem simulates_none (h : Shows q v) : Simulates v q := ⟨[],v,rfl,h⟩

theorem simulates_event {e : Event} (hpossible : v.possible e = true)
    (h : Shows q (v.react e)) : Simulates v q := by
  refine ⟨[e],v.react e,?_,h⟩
  rw [run_singleton]
  exact step_eq_ok.mpr ⟨hpossible,rfl⟩

theorem simulates_outcome (h : Shows p v) (hpages : q.pages+outstanding q.store+1 =
      p.pages+outstanding p.store) (htypes : typeOf q.store = typeOf p.store)
    (hlogin : q.loginButton = p.loginButton) (hlogout : q.logoutButton = p.logoutButton)
    (hrefresh : q.refreshButton = p.refreshButton) : Simulates v q := by
  have hpending := h.pending
  have hpossible : v.possible .requestRefused = true := by
    have hpos : 0 < v.pending := by omega
    simpa [ViewController.possible] using hpos
  apply simulates_event hpossible
  refine ⟨fun account => ?_,?_,?_,?_,?_⟩
  · rw [htypes]
    exact h.accounts account
  · dsimp only [ViewController.react]
    omega
  · exact h.login.trans hlogin.symm
  · exact h.logout.trans hlogout.symm
  · exact h.refresh.trans hrefresh.symm

theorem mem_addAccount {store : NXOAuth2AccountStore} {account : NXOAuth2Account} :
    account ∈ (store.addAccount ⟨String.ofList identifier,"Instagram"⟩).accounts ↔
      if account.identifier.toList = identifier then account.accountType.toList = instagram
      else account ∈ store.accounts := by
  obtain ⟨name,accountType⟩ := account
  have hname : name.toList = identifier ↔ name = String.ofList identifier := by
    constructor
    · rintro rfl
      exact String.ofList_toList.symm
    · rintro rfl
      exact String.toList_ofList
  have htype : accountType.toList = instagram ↔ accountType = "Instagram" := String.toList_inj
  simp only [NXOAuth2AccountStore.addAccount,NXOAuth2AccountStore.removeAccount,List.mem_append,
    List.mem_filter,List.mem_singleton,NXOAuth2Account.mk.injEq]
  by_cases hsame : name.toList = identifier
  · rw [if_pos hsame,htype]
    simp [hname.mp hsame]
  · have hne : name ≠ String.ofList identifier := fun h => hsame (hname.mpr h)
    rw [if_neg hsame]
    simp [hne]

theorem simulates_tokenAnswered {newToken : Option OAuth2.NXOAuth2AccessToken}
    (hs : OnlyInstagram p.store) (h : Shows p v)
    (hstep : p.store.tokenAnswered instagram newToken identifier = .ok t) :
    Simulates v {p with store := t} ∧ OnlyInstagram t := by
  obtain ⟨client,token,hpending,hrunning,hnew,_,rfl⟩ :=
    OAuth2.NXOAuth2AccountStore.tokenAnswered_cases hs.clean hstep
  have hdropped := (logsIn_dropPending hs hpending).only
  have hconnection : outstanding p.store = 1+p.store.orphaned := by
    rw [outstanding_of_pending hpending,hrunning]
    rfl
  have herased : AList.lookup instagram (p.store.pendingOAuthClients.erase instagram) = none :=
    AList.lookup_erase instagram p.store.pendingOAuthClients
  have hcount := h.pending
  constructor
  · have hpossible : v.possible (.accountAdded (String.ofList identifier)) = true := by
      have hpos : 0 < v.pending := by omega
      simpa [ViewController.possible] using hpos
    apply simulates_event hpossible
    refine ⟨fun account => ?_,?_,h.login,h.logout,h.refresh⟩
    · rw [ViewController.react,mem_addAccount,typeOf,
        OAuth2.NXOAuth2AccountStore.accountsDict_addAccount,
        OAuth2.NXOAuth2AccountStore.lookup_setAccount]
      split_ifs with hsame
      · simp [eq_comm]
      · exact h.accounts account
    · dsimp only [ViewController.react]
      rw [outstanding,OAuth2.NXOAuth2AccountStore.pending_addAccount,herased]
      dsimp only [OAuth2.NXOAuth2AccountStore.addAccount,OAuth2.NXOAuth2AccountStore.setAccount,
        OAuth2.NXOAuth2AccountStore.storeAccountsInDefaultKeychain]
      omega
  · exact ⟨hdropped.configured,hdropped.clean,hdropped.pending⟩

theorem typeOf_removeAll (identifiers : List Text) (s : OAuth2.NXOAuth2AccountStore) (i : Text) :
    typeOf (identifiers.foldl OAuth2.NXOAuth2AccountStore.removeAccount s) i =
      if i ∈ identifiers then none else typeOf s i := by
  induction identifiers generalizing s with
  | nil => simp
  | cons identifier identifiers ih =>
    rw [List.foldl_cons,ih]
    by_cases hi : i ∈ identifiers
    · simp [hi]
    · rw [if_neg hi,typeOf,OAuth2.NXOAuth2AccountStore.lookup_removeAccount]
      by_cases hhead : i = identifier
      · simp [hhead]
      · simp [hi,hhead,typeOf]

theorem removeAll_logins (identifiers : List Text) (s : OAuth2.NXOAuth2AccountStore) :
    let t := identifiers.foldl OAuth2.NXOAuth2AccountStore.removeAccount s
    t.configurations = s.configurations ∧ t.pendingOAuthClients = s.pendingOAuthClients ∧
      t.orphaned = s.orphaned := by
  induction identifiers generalizing s with
  | nil => exact ⟨rfl,rfl,rfl⟩
  | cons identifier identifiers ih => exact ih (s.removeAccount identifier)

theorem mem_accountsWithAccountType {i : Text} :
    i ∈ s.accountsWithAccountType instagram ↔ typeOf s i = some instagram := by
  rw [OAuth2.NXOAuth2AccountStore.accountsWithAccountType,typeOf,Option.map_eq_some_iff]
  constructor
  · intro h
    obtain ⟨e,he,rfl⟩ := List.mem_map.mp h
    obtain ⟨hmem,htype⟩ := List.mem_filter.mp he
    exact ⟨e.2,AList.mem_lookup_iff.mpr hmem,of_decide_eq_true htype⟩
  · rintro ⟨account,haccount,htype⟩
    refine List.mem_map.mpr ⟨⟨i,account⟩,List.mem_filter.mpr ⟨?_,decide_eq_true htype⟩,rfl⟩
    exact AList.mem_lookup_iff.mp haccount

theorem simulates_logout (hs : OnlyInstagram p.store) (h : Shows p v)
    (hstep : p.logoutButtonTapped = .ok q) : Simulates v q ∧ OnlyInstagram q.store := by
  rw [Program.logoutButtonTapped] at hstep
  split_ifs at hstep with hbutton
  obtain rfl := Except.ok.inj hstep
  obtain ⟨hconfigurations,hpending,horphaned⟩ :=
    removeAll_logins (p.store.accountsWithAccountType instagram) p.store
  constructor
  · have hpossible : v.possible .logoutButtonTapped = true := h.logout.trans hbutton
    apply simulates_event hpossible
    refine ⟨fun account => ?_,?_,rfl,rfl,rfl⟩
    · have hremoved : (∀ old ∈ v.instagramAccounts, account.identifier ≠ old.identifier) ↔
          typeOf p.store account.identifier.toList ≠ some instagram := by
        rw [ViewController.instagramAccounts,NXOAuth2AccountStore.accountsWithAccountType]
        constructor
        · intro hall htype
          have hmem : (⟨account.identifier,"Instagram"⟩ : NXOAuth2Account) ∈ v.store.accounts :=
            (h.accounts ⟨account.identifier,"Instagram"⟩).mpr htype
          exact hall _ (List.mem_filter.mpr ⟨hmem,by simp⟩) rfl
        · intro htype old hold hsame
          obtain ⟨hmem,hinstagram⟩ := List.mem_filter.mp hold
          have hfound := (h.accounts old).mp hmem
          rw [← hsame,of_decide_eq_true hinstagram] at hfound
          exact htype hfound
      have hafter : account ∈ (v.react .logoutButtonTapped).store.accounts ↔
          account ∈ v.store.accounts ∧
            ∀ old ∈ v.instagramAccounts, account.identifier ≠ old.identifier := by
        rw [ViewController.react,ViewController.logoutButtonTapped,removeAll_accounts,
          List.mem_filter,decide_eq_true_iff]
        rfl
      rw [hafter,hremoved,h.accounts account,typeOf_removeAll]
      by_cases htype : typeOf p.store account.identifier.toList = some instagram
      · rw [if_pos (mem_accountsWithAccountType.mpr htype)]
        simp [htype]
      · rw [if_neg fun hmem => htype (mem_accountsWithAccountType.mp hmem)]
        simp [htype]
    · have hcount := h.pending
      rw [outstanding] at hcount ⊢
      rw [hpending,horphaned]
      exact hcount
  · refine ⟨hconfigurations.trans hs.configured,fun accountType client hclient => ?_,
      fun client hclient => ?_⟩
    · rw [hpending] at hclient
      exact hs.clean accountType client hclient
    · rw [hpending] at hclient
      exact hs.pending client hclient

def accountsOf (keychain : Dictionary Text OAuth2.ArchivedAccount) : NXOAuth2AccountStore where
  accounts := keychain.entries.map fun e =>
    ⟨String.ofList e.1,String.ofList e.2.accountType⟩

theorem mem_accountsOf {keychain : Dictionary Text OAuth2.ArchivedAccount}
    {account : NXOAuth2Account} : account ∈ (accountsOf keychain).accounts ↔
      (keychain.lookup account.identifier.toList).map OAuth2.ArchivedAccount.accountType =
        some account.accountType.toList := by
  rw [accountsOf,List.mem_map,Option.map_eq_some_iff]
  constructor
  · rintro ⟨e,he,rfl⟩
    refine ⟨e.2,?_,String.toList_ofList.symm⟩
    dsimp only
    rw [String.toList_ofList]
    exact AList.mem_lookup_iff.mpr he
  · rintro ⟨archived,harchived,htype⟩
    refine ⟨⟨account.identifier.toList,archived⟩,AList.mem_lookup_iff.mp harchived,?_⟩
    dsimp only
    rw [htype,String.ofList_toList,String.ofList_toList]

theorem shows_launch (keychain : Dictionary Text OAuth2.ArchivedAccount) (pages : ℕ)
    (store : NXOAuth2AccountStore)
    (h : ∀ account : NXOAuth2Account, account ∈ store.accounts ↔
      (keychain.lookup account.identifier.toList).map OAuth2.ArchivedAccount.accountType =
        some account.accountType.toList) :
    Shows (.launch keychain pages) (.launch store pages) ∧
      OnlyInstagram (Program.launch keychain pages).store := by
  refine ⟨⟨fun account => ?_,rfl,rfl,rfl,rfl⟩,rfl,fun accountType client hclient => ?_,
    fun client hclient => ?_⟩
  · have htype : typeOf (Program.launch keychain pages).store account.identifier.toList =
        (keychain.lookup account.identifier.toList).map OAuth2.ArchivedAccount.accountType := by
      rw [typeOf,Program.launch,OAuth2.NXOAuth2AccountStore.init]
      dsimp only
      rw [Dictionary.lookup_mapValues,Option.map_map]
      rfl
    rw [htype]
    exact h account
  · simp [Program.launch,OAuth2.NXOAuth2AccountStore.init] at hclient
  · simp [Program.launch,OAuth2.NXOAuth2AccountStore.init] at hclient

/-- Whatever the program does, its store goes through steps of its own. -/
theorem store_run {e : ProgramEvent} (h : p.step e = .ok q) :
    ∃ es, run OAuth2.NXOAuth2AccountStore.step p.store es = .ok q.store := by
  have hsingle : ∀ {event : OAuth2.Event} {p : Program},
      p.withStore (p.store.step event) = .ok q →
        ∃ es, run OAuth2.NXOAuth2AccountStore.step p.store es = .ok q.store := by
    intro event p h
    obtain ⟨s,hs,rfl⟩ := withStore_eq_ok.mp h
    exact ⟨[event],by rw [run_singleton,hs]⟩
  cases e with
  | launch =>
    obtain rfl := Except.ok.inj h
    exact ⟨[.relaunch,.setConfiguration OAuth2.instagramConfiguration instagram],rfl⟩
  | loginButtonTapped =>
    simp only [Program.step,Program.loginButtonTapped] at h
    split_ifs at h
    obtain ⟨p',hp',h⟩ := bind_eq_ok.mp h
    obtain ⟨s,hs,rfl⟩ := withStore_eq_ok.mp hp'
    obtain rfl := Except.ok.inj h
    exact ⟨[.requestAccess instagram],by rw [run_singleton]; exact hs⟩
  | logoutButtonTapped =>
    simp only [Program.step,Program.logoutButtonTapped] at h
    split_ifs at h
    obtain rfl := Except.ok.inj h
    generalize p.store.accountsWithAccountType instagram = identifiers
    refine ⟨identifiers.map .removeAccount,?_⟩
    generalize p.store = s
    induction identifiers generalizing s with
    | nil => rfl
    | cons identifier identifiers ih => exact ih (s.removeAccount identifier)
  | redirected url =>
    simp only [Program.step,Program.redirected] at h
    split_ifs at h
    obtain ⟨s,hs,rfl⟩ := withStore_eq_ok.mp h
    exact ⟨[.handleRedirectURL url p.store.configurations.keys (p.store.redirectTypes url)],
      by rw [run_singleton]; exact hs⟩
  | pageClosed =>
    simp only [Program.step] at h
    split_ifs at h
    obtain rfl := Except.ok.inj h
    exact ⟨[],rfl⟩
  | tokenAnswered newToken identifier => exact hsingle h
  | tokenFailed => exact hsingle h
  | orphanEnded => exact hsingle h
  | refreshAccessToken identifier => exact hsingle h
  | retryAfterDelay identifier => exact hsingle h
  | refreshAnswered identifier newToken => exact hsingle h
  | refreshFailed identifier error => exact hsingle h
  | tokenRejected identifier => exact hsingle h

theorem typeOf_saved (h : s.Saved) (i : Text) :
    (s.keychain.lookup i).map OAuth2.ArchivedAccount.accountType = typeOf s i := by
  have hkept := h i
  rw [typeOf]
  cases haccount : s.accountsDict.lookup i with
  | none =>
    cases hkeychain : s.keychain.lookup i with
    | none => rfl
    | some archived =>
      rw [haccount,hkeychain] at hkept
      exact absurd hkept id
  | some account =>
    cases hkeychain : s.keychain.lookup i with
    | none =>
      rw [haccount,hkeychain] at hkept
      exact absurd hkept id
    | some archived =>
      rw [haccount,hkeychain] at hkept
      rw [Option.map_some,Option.map_some,hkept.1]

theorem simulates_step (e : ProgramEvent) (hs : OnlyInstagram p.store) (hsaved : p.store.Saved)
    (hshows : Shows p v) (hloses : LosesNoAccount p e) (h : p.step e = .ok q) :
    Simulates v q ∧ OnlyInstagram q.store := by
  have hcount := hshows.pending
  by_cases hclient : AtAccount e
  · obtain ⟨s,hunseen,rfl⟩ := unseen_step hclient hloses h
    exact ⟨simulates_none (hshows.unseen hunseen.types hunseen.outstanding),
      hunseen.onlyInstagram hs⟩
  · cases e with
    | launch =>
      obtain rfl := Except.ok.inj h
      have hpossible : v.possible (.launch p.pages) = true := by
        simp only [ViewController.possible,decide_eq_true_eq]
        omega
      obtain ⟨hlaunched,honly⟩ := shows_launch p.store.keychain p.pages v.store
        fun account => by rw [typeOf_saved hsaved,hshows.accounts]
      exact ⟨simulates_event hpossible hlaunched,honly⟩
    | loginButtonTapped =>
      simp only [Program.step,Program.loginButtonTapped] at h
      split_ifs at h with hbutton
      obtain ⟨p',hp',h⟩ := bind_eq_ok.mp h
      obtain ⟨s,hs',rfl⟩ := withStore_eq_ok.mp hp'
      obtain rfl := Except.ok.inj h
      have hlogs := logsIn_requestAccess hs hs'
      have houtstanding := hlogs.outstanding
      refine ⟨simulates_event (e := .loginButtonTapped) (hshows.login.trans hbutton) ?_,hlogs.only⟩
      refine ⟨fun account => ?_,?_,rfl,rfl,rfl⟩
      · rw [hlogs.types]
        exact hshows.accounts account
      · dsimp only [ViewController.react,ViewController.loginButtonTapped]
        omega
    | logoutButtonTapped => exact simulates_logout hs hshows h
    | redirected url =>
      simp only [Program.step,Program.redirected] at h
      split_ifs at h with hpages
      obtain ⟨s,hs',rfl⟩ := withStore_eq_ok.mp h
      rcases logsIn_handleRedirectURL hs hs' with hlogs | hlogs
      · have houtstanding := hlogs.outstanding
        refine ⟨simulates_outcome hshows ?_ hlogs.types rfl rfl rfl,hlogs.only⟩
        dsimp only
        omega
      · have houtstanding := hlogs.outstanding
        refine ⟨simulates_none ⟨fun account => ?_,?_,hshows.login,hshows.logout,
          hshows.refresh⟩,hlogs.only⟩
        · rw [hlogs.types]
          exact hshows.accounts account
        · dsimp only
          omega
    | pageClosed =>
      simp only [Program.step] at h
      split_ifs at h with hpages
      obtain rfl := Except.ok.inj h
      refine ⟨simulates_outcome hshows ?_ rfl rfl rfl rfl,hs⟩
      dsimp only
      omega
    | tokenAnswered newToken identifier =>
      obtain ⟨s,hs',rfl⟩ := withStore_eq_ok.mp h
      exact simulates_tokenAnswered hs hshows hs'
    | tokenFailed =>
      obtain ⟨s,hs',rfl⟩ := withStore_eq_ok.mp h
      obtain ⟨client,hpending,hrunning,rfl⟩ :=
        OAuth2.NXOAuth2AccountStore.tokenFailed_cases hs'
      have hdropped := (logsIn_dropPending hs hpending).only
      have herased : AList.lookup instagram (p.store.pendingOAuthClients.erase instagram) =
          none := AList.lookup_erase instagram p.store.pendingOAuthClients
      have hconnection : outstanding p.store = 1+p.store.orphaned := by
        rw [outstanding_of_pending hpending,hrunning]
        rfl
      refine ⟨simulates_outcome hshows ?_ rfl rfl rfl rfl,hdropped.configured,hdropped.clean,
        hdropped.pending⟩
      have hafter : outstanding (p.store.dropPending instagram
          {client with authConnection := none}) = p.store.orphaned := by
        rw [outstanding,OAuth2.NXOAuth2AccountStore.dropPending,herased]
        rfl
      dsimp only
      omega
    | orphanEnded =>
      obtain ⟨s,hs',rfl⟩ := withStore_eq_ok.mp h
      rw [OAuth2.NXOAuth2AccountStore.step] at hs'
      split_ifs at hs'
    | _ => exact absurd trivial hclient

/-- In every run over the account store that removes no account for an invalid token, the
program with a list of accounts and a number of pending requests can do the same: it comes to
a state with the same accounts, the same buttons, and a request pending for each page that is
open and each connection of a login. -/
theorem program_refines_buttons (keychain : Dictionary Text OAuth2.ArchivedAccount) (pages : ℕ)
    {es : List ProgramEvent} (hrun : run Program.step (.launch keychain pages) es = .ok p)
    (hloses : Along Program.step LosesNoAccount (.launch keychain pages) es) :
    ∃ seen v, run ViewController.step (.launch (accountsOf keychain) pages) seen = .ok v ∧
      Shows p v := by
  obtain ⟨hlaunched,honly⟩ := shows_launch keychain pages (accountsOf keychain)
    fun account => mem_accountsOf
  have hkept : ∀ e p q, LosesNoAccount p e →
      ((OnlyInstagram p.store ∧ p.store.Sound ∧ p.store.Saved) ∧
        ∃ seen v, run ViewController.step (.launch (accountsOf keychain) pages) seen = .ok v ∧
          Shows p v) →
      p.step e = .ok q →
      ((OnlyInstagram q.store ∧ q.store.Sound ∧ q.store.Saved) ∧
        ∃ seen v, run ViewController.step (.launch (accountsOf keychain) pages) seen = .ok v ∧
          Shows q v) := by
    rintro e p q hloses ⟨⟨honly,hsound⟩,seen,v,hseen,hshows⟩ h
    obtain ⟨⟨es,w,hes,hw⟩,honly'⟩ := simulates_step e honly hsound.2 hshows hloses h
    obtain ⟨es',hes'⟩ := store_run h
    have hsound' := run_invariant OAuth2.NXOAuth2AccountStore.saved_step hsound hes'
    exact ⟨⟨honly',hsound'⟩,seen++es,w,run_append_eq_ok.mpr ⟨v,hseen,hes⟩,hw⟩
  have hinit : OAuth2.NXOAuth2AccountStore.Sound (Program.launch keychain pages).store ∧
      OAuth2.NXOAuth2AccountStore.Saved (Program.launch keychain pages).store :=
    ⟨⟨honly.clean,(OAuth2.NXOAuth2AccountStore.sound_init keychain).told⟩,
      (OAuth2.NXOAuth2AccountStore.stored_init keychain).saved⟩
  exact (run_invariant_along hkept hloses ⟨⟨honly,hinit⟩,[],_,rfl,hlaunched⟩ hrun).2

def givenUp : List ProgramEvent :=
  [.loginButtonTapped,.pageClosed,.refreshAccessToken "7D4F".toList]

theorem program_refines_buttons_givenUp : ∃ p seen v,
    run Program.step (.launch OAuth2.NXOAuth2AccountStore.savedAccount 0) givenUp = .ok p ∧
      run ViewController.step (.launch (accountsOf OAuth2.NXOAuth2AccountStore.savedAccount) 0)
        seen = .ok v ∧ Shows p v := by
  have hloses : Along Program.step LosesNoAccount
      (.launch OAuth2.NXOAuth2AccountStore.savedAccount 0) givenUp :=
    ⟨trivial,fun _ _ => ⟨trivial,fun _ _ => ⟨trivial,fun _ _ => trivial⟩⟩⟩
  obtain ⟨seen,v,hseen,hshows⟩ := program_refines_buttons
    OAuth2.NXOAuth2AccountStore.savedAccount 0 (show run Program.step
      (.launch OAuth2.NXOAuth2AccountStore.savedAccount 0) givenUp = .ok _ from rfl) hloses
  exact ⟨_,seen,v,rfl,hseen,hshows⟩

end GrammyPlus
end CourseraObjC
