import CourseraObjC.LoginFlow
import CourseraObjC.Runs

/-! The store of OAuth accounts over its keychain, with the clients that log in and those of
the accounts. Redirects, answers of the token server, timers, removals and launches come in any
order; an object sits in one place, so a client is found by the account type it logs in for or
by the account it belongs to. Assertions are enabled, as in a debug build: one that fails, for
an answer without a token say, ends the run. -/
namespace CourseraObjC
namespace OAuth2

open QueryParameters

structure Configuration where
  clientID : Text
  secret : Text
  authorizeURL : Text
  tokenURL : Text
  redirectURL : Text
  scope : Option (List Text)
  additionalAuthenticationParameters : Option AdditionalParameters

/-- The client is there once it is asked for, or from the login that made the account. -/
structure NXOAuth2Account where
  accountType : Text
  accessToken : Option NXOAuth2AccessToken
  userData : Option Text
  oauthClient : Option NXOAuth2Client

structure ArchivedAccount where
  accountType : Text
  accessToken : Option NXOAuth2AccessToken
  userData : Option Text
  deriving DecidableEq

def NXOAuth2Account.encodeWithCoder (account : NXOAuth2Account) : ArchivedAccount :=
  ⟨account.accountType,account.accessToken,account.userData⟩

def ArchivedAccount.initWithCoder (archived : ArchivedAccount) : NXOAuth2Account :=
  ⟨archived.accountType,archived.accessToken,archived.userData,none⟩

/-- Why a step does not come to its end: an exception or a failed assertion, or an event that
cannot be. -/
inductive Halt
  | raised
  | impossible
  deriving DecidableEq

/-- What became of a connection that has no answer: a status of the server, or none. -/
inductive ConnectionError
  | http (code : ℕ)
  | noResponse
  deriving DecidableEq

def ConnectionError.isServerIssue : ConnectionError → Bool
  | .http code => 500 ≤ code && code < 600
  | .noResponse => false

/-- What a client tells its delegate of its token. -/
inductive News
  | didGetAccessToken
  | didRefreshAccessToken
  | didLoseAccessToken
  deriving DecidableEq

namespace NXOAuth2Client

def setAccessToken (client : NXOAuth2Client) (value : Option NXOAuth2AccessToken) :
    NXOAuth2Client × Option News :=
  match client.accessToken,value with
  | none,none => (client,none)
  | none,some _ => ({client with accessToken := value},some .didGetAccessToken)
  | some _,none => ({client with accessToken := value},some .didLoseAccessToken)
  | some _,some _ => ({client with accessToken := value},some .didRefreshAccessToken)

def refreshAccessToken (client : NXOAuth2Client) : Except Halt NXOAuth2Client :=
  if client.authConnection.isSome then .ok client
  else
    match client.accessToken.bind NXOAuth2AccessToken.refreshToken with
    | some _ => .ok {client with authConnection := some .tokenRefresh}
    | none => .error .raised

def didFinishWithToken (client : NXOAuth2Client) (newToken : NXOAuth2AccessToken) :
    NXOAuth2Client × Option News :=
  let token := newToken.restoreWithOldToken client.accessToken
  let (client,news) := client.setAccessToken (some token)
  ({client with authConnection := none,refreshConnectionDidRetryCount := 0},news)

def retries (client : NXOAuth2Client) (error : ConnectionError) : Bool :=
  error.isServerIssue && client.refreshConnectionDidRetryCount < 4

def resetToken (client : NXOAuth2Client) (error : ConnectionError) :
    NXOAuth2Client × Option News :=
  if error = .http 401 then client.setAccessToken none else (client,none)

end NXOAuth2Client

/-- `orphaned` counts the connections of clients that are no longer pending, and `opened` lists
the pages that the browser was sent to. -/
structure NXOAuth2AccountStore where
  configurations : Dictionary Text Configuration
  pendingOAuthClients : Dictionary Text NXOAuth2Client
  accountsDict : Dictionary Text NXOAuth2Account
  keychain : Dictionary Text ArchivedAccount
  orphaned : ℕ
  opened : List Text

inductive Event
  | setConfiguration (configuration : Configuration) (accountType : Text)
  | requestAccess (accountType : Text)
  -- with the configurations and the matching types in the orders they are gone through
  | handleRedirectURL (url : Text) (enumerated members : List Text)
  -- the answers of the token server to a login
  | tokenAnswered (accountType : Text) (newToken : Option NXOAuth2AccessToken)
    (identifier : Text)
  | tokenFailed (accountType : Text)
  | orphanEnded
  -- what becomes of the client of an account, which the first request makes
  | performRequest (identifier : Text)
  | refreshAccessToken (identifier : Text)
  | retryAfterDelay (identifier : Text)
  | refreshAnswered (identifier : Text) (newToken : Option NXOAuth2AccessToken)
  | refreshFailed (identifier : Text) (error : ConnectionError)
  | tokenRejected (identifier : Text)
  -- equal data may be the object that the account has
  | setUserData (identifier : Text) (userData : Option Text) (sameObject : Bool)
  | removeAccount (identifier : Text)
  | relaunch

def scheme (url : Text) : Option Text :=
  match url.span schemeCharacter with
  | (s::rest,':'::_) => some (s::rest)
  | _ => none

def sameScheme (url redirectURL : Text) : Bool :=
  match scheme url,scheme redirectURL with
  | some s,some t => s = t
  | _,_ => false

def instagramConfiguration : Configuration where
  clientID := instagramClient.clientId
  secret := instagramClient.clientSecret
  authorizeURL := instagramClient.authorizeURL
  tokenURL := instagramClient.tokenURL
  redirectURL := outgoingRedirect
  scope := none
  additionalAuthenticationParameters := none

namespace NXOAuth2AccountStore

def storeAccountsInDefaultKeychain (s : NXOAuth2AccountStore) : NXOAuth2AccountStore :=
  {s with keychain := s.accountsDict.mapValues NXOAuth2Account.encodeWithCoder}

def init (keychain : Dictionary Text ArchivedAccount) : NXOAuth2AccountStore where
  configurations := ∅
  pendingOAuthClients := ∅
  accountsDict := keychain.mapValues ArchivedAccount.initWithCoder
  keychain := keychain
  orphaned := 0
  opened := []

def setAccount (s : NXOAuth2AccountStore) (identifier : Text) (account : NXOAuth2Account) :
    NXOAuth2AccountStore :=
  {s with accountsDict := s.accountsDict.insert identifier account}

def addAccount (s : NXOAuth2AccountStore) (identifier : Text) (account : NXOAuth2Account) :
    NXOAuth2AccountStore :=
  (s.setAccount identifier account).storeAccountsInDefaultKeychain

def removeAccount (s : NXOAuth2AccountStore) (identifier : Text) : NXOAuth2AccountStore :=
  {s with accountsDict := s.accountsDict.erase identifier}.storeAccountsInDefaultKeychain

def accountsWithAccountType (s : NXOAuth2AccountStore) (accountType : Text) : List Text :=
  (s.accountsDict.entries.filter fun e => e.2.accountType = accountType).map Sigma.fst

def newClient (configuration : Configuration) : NXOAuth2Client where
  clientId := configuration.clientID
  clientSecret := configuration.secret
  authorizeURL := configuration.authorizeURL
  tokenURL := configuration.tokenURL
  desiredScope := configuration.scope
  additionalAuthenticationParameters := configuration.additionalAuthenticationParameters
  delegate := .store
  accessToken := none
  authConnection := none
  refreshConnectionDidRetryCount := 0
  refreshScheduled := 0

def pendingOAuthClientForAccountType (s : NXOAuth2AccountStore) (accountType : Text) :
    Except Halt (NXOAuth2AccountStore × NXOAuth2Client) :=
  match s.pendingOAuthClients.lookup accountType with
  | some client => .ok (s,client)
  | none =>
    match s.configurations.lookup accountType with
    | some configuration =>
      let client := newClient configuration
      .ok ({s with pendingOAuthClients := s.pendingOAuthClients.insert accountType client},client)
    | none => .error .raised

def oauthClientNeedsAuthentication (s : NXOAuth2AccountStore) (accountType : Text)
    (client : NXOAuth2Client) : NXOAuth2AccountStore :=
  match s.configurations.lookup accountType with
  | some configuration =>
    {s with opened := s.opened++[client.authorizationURLWithRedirectURL configuration.redirectURL]}
  | none => s

def requestAccess (s : NXOAuth2AccountStore) (accountType : Text) :
    Except Halt NXOAuth2AccountStore := do
  let (s,client) ← s.pendingOAuthClientForAccountType accountType
  if client.accessToken.isNone then return s.oauthClientNeedsAuthentication accountType client
  else return s

/-- A pending client leaves, and takes a connection that it still has with it. -/
def dropPending (s : NXOAuth2AccountStore) (accountType : Text) (client : NXOAuth2Client) :
    NXOAuth2AccountStore :=
  {s with
    pendingOAuthClients := s.pendingOAuthClients.erase accountType
    orphaned := if client.authConnection.isSome then s.orphaned+1 else s.orphaned}

def matchesRedirect (s : NXOAuth2AccountStore) (url accountType : Text) : Bool :=
  match s.configurations.lookup accountType with
  | some configuration =>
    (lowercaseString configuration.redirectURL).isPrefixOf (lowercaseString url)
  | none => false

def fixed (url redirectURL : Text) : Text :=
  if sameScheme url redirectURL then url else redirectURL++url.drop redirectURL.length

/-- The first type whose redirect URL fits gives its spelling to the beginning of the URL. -/
def fixedRedirectURL (s : NXOAuth2AccountStore) (url : Text) (enumerated : List Text) :
    Option Text :=
  (enumerated.find? (s.matchesRedirect url)).bind fun accountType =>
    (s.configurations.lookup accountType).map fun configuration =>
      fixed url configuration.redirectURL

/-- The types are tried one after the other, until one asks for a token. -/
def openFirst (fixedRedirectURL : Text) :
    List Text → NXOAuth2AccountStore → Except Halt NXOAuth2AccountStore
  | [], s => .ok s
  | accountType::members, s => do
    let (s,client) ← s.pendingOAuthClientForAccountType accountType
    match client.openRedirectURL fixedRedirectURL with
    | .error _ => .error .raised
    | .ok (.requestToken _) =>
      let client := {client with authConnection := some .tokenRequest}
      return {s with
        pendingOAuthClients := s.pendingOAuthClients.insert accountType client}
    | .ok (.didFail _) => openFirst fixedRedirectURL members (s.dropPending accountType client)
    | .ok .ignored => openFirst fixedRedirectURL members s

def redirectTypes (s : NXOAuth2AccountStore) (url : Text) : List Text :=
  s.configurations.keys.filter (s.matchesRedirect url)

def handleRedirectURL (s : NXOAuth2AccountStore) (url : Text) (enumerated members : List Text) :
    Except Halt NXOAuth2AccountStore :=
  if enumerated.isPerm s.configurations.keys && members.isPerm (s.redirectTypes url) then
    match s.fixedRedirectURL url enumerated with
    | some fixedRedirectURL => openFirst fixedRedirectURL members s
    | none => .ok s
  else .error .impossible

def tokenAnswered (s : NXOAuth2AccountStore) (accountType : Text)
    (newToken : Option NXOAuth2AccessToken) (identifier : Text) :
    Except Halt NXOAuth2AccountStore :=
  match s.pendingOAuthClients.lookup accountType with
  | some client =>
    if client.authConnection = some .tokenRequest ∧ s.accountsDict.lookup identifier = none then
      match newToken with
      | some token =>
        let client := (client.didFinishWithToken token).1
        let s := {s with pendingOAuthClients := s.pendingOAuthClients.erase accountType}
        .ok (s.addAccount identifier ⟨accountType,client.accessToken,none,some client⟩)
      | none => .error .raised
    else .error .impossible
  | none => .error .impossible

def tokenFailed (s : NXOAuth2AccountStore) (accountType : Text) :
    Except Halt NXOAuth2AccountStore :=
  match s.pendingOAuthClients.lookup accountType with
  | some client =>
    if client.authConnection = some .tokenRequest then
      .ok (s.dropPending accountType {client with authConnection := none})
    else .error .impossible
  | none => .error .impossible

/-- The client of an account that was read from the keychain. -/
def ownClient (configuration : Configuration) (account : NXOAuth2Account) : NXOAuth2Client :=
  {newClient configuration with
    desiredScope := none
    delegate := .account
    accessToken := account.accessToken}

def oauthClient (s : NXOAuth2AccountStore) (account : NXOAuth2Account) :
    Except Halt NXOAuth2Client :=
  match account.oauthClient with
  | some client => .ok client
  | none =>
    match s.configurations.lookup account.accountType with
    | some configuration => .ok (ownClient configuration account)
    | none => .error .raised

def performRequest (s : NXOAuth2AccountStore) (identifier : Text) :
    Except Halt NXOAuth2AccountStore :=
  match s.accountsDict.lookup identifier with
  | some account => do
    let client ← s.oauthClient account
    return s.setAccount identifier {account with oauthClient := some client}
  | none => .error .impossible

def refreshAccessToken (s : NXOAuth2AccountStore) (identifier : Text) :
    Except Halt NXOAuth2AccountStore :=
  match s.accountsDict.lookup identifier with
  | some account => do
    let client ← s.oauthClient account
    let client ← client.refreshAccessToken
    return s.setAccount identifier {account with oauthClient := some client}
  | none => .error .impossible

/-- What the news of a client come to at its delegate: the store, which looks for the client
among the pending ones, or the account. -/
def hear (s : NXOAuth2AccountStore) (identifier : Text) (account : NXOAuth2Account)
    (client : NXOAuth2Client) (news : Option News) : Except Halt NXOAuth2AccountStore :=
  match news,client.delegate with
  | none,_ => .ok (s.setAccount identifier {account with oauthClient := some client})
  | some .didGetAccessToken,.store => .error .raised
  | some _,.store => .ok (s.setAccount identifier {account with oauthClient := some client})
  | some .didLoseAccessToken,.account => .ok (s.removeAccount identifier)
  | some _,.account => .ok (s.addAccount identifier
    {account with accessToken := client.accessToken,oauthClient := some client})

/-- What an account that is still there does when its token could not be refreshed. -/
def forgetToken (s : NXOAuth2AccountStore) (identifier : Text) : NXOAuth2AccountStore :=
  match s.accountsDict.lookup identifier with
  | some account => s.setAccount identifier {account with accessToken := none}
  | none => s

def withClient (s : NXOAuth2AccountStore) (identifier : Text)
    (react : NXOAuth2Account → NXOAuth2Client → Except Halt NXOAuth2AccountStore) :
    Except Halt NXOAuth2AccountStore :=
  match s.accountsDict.lookup identifier with
  | some account =>
    match account.oauthClient with
    | some client => react account client
    | none => .error .impossible
  | none => .error .impossible

def retryAfterDelay (s : NXOAuth2AccountStore) (identifier : Text) :
    Except Halt NXOAuth2AccountStore :=
  s.withClient identifier fun account client =>
    if client.refreshScheduled = 0 then .error .impossible
    else do
      let client := {client with refreshScheduled := client.refreshScheduled-1}
      let client ← client.refreshAccessToken
      return s.setAccount identifier {account with oauthClient := some client}

def refreshAnswered (s : NXOAuth2AccountStore) (identifier : Text)
    (newToken : Option NXOAuth2AccessToken) : Except Halt NXOAuth2AccountStore :=
  s.withClient identifier fun account client =>
    if client.authConnection = some .tokenRefresh then
      match newToken with
      | some token =>
        let (client,news) := client.didFinishWithToken token
        s.hear identifier account client news
      | none => .error .raised
    else .error .impossible

def didFailToGetAccessToken (s : NXOAuth2AccountStore) (identifier : Text)
    (account : NXOAuth2Account) (client : NXOAuth2Client) (error : ConnectionError) :
    Except Halt NXOAuth2AccountStore := do
  let (client,news) := client.resetToken error
  let s ← s.hear identifier account client news
  match client.delegate with
  | .store => .error .raised
  | .account => return s.forgetToken identifier

def refreshFailed (s : NXOAuth2AccountStore) (identifier : Text) (error : ConnectionError) :
    Except Halt NXOAuth2AccountStore :=
  s.withClient identifier fun account client =>
    if client.authConnection ≠ some .tokenRefresh then .error .impossible
    else if client.retries error then
      let client := {client with
        authConnection := none
        refreshConnectionDidRetryCount := client.refreshConnectionDidRetryCount+1
        refreshScheduled := client.refreshScheduled+1}
      .ok (s.setAccount identifier {account with oauthClient := some client})
    else
      s.didFailToGetAccessToken identifier account {client with authConnection := none} error

def tokenRejected (s : NXOAuth2AccountStore) (identifier : Text) :
    Except Halt NXOAuth2AccountStore :=
  s.withClient identifier fun account client =>
    let (client,news) := client.setAccessToken none
    s.hear identifier account client news

def setUserData (s : NXOAuth2AccountStore) (identifier : Text) (userData : Option Text)
    (sameObject : Bool) : Except Halt NXOAuth2AccountStore :=
  match s.accountsDict.lookup identifier with
  | some account =>
    -- two times nil is the same object, two equal texts may be or not
    if account.userData = userData ∧ (sameObject || userData.isNone) then .ok s
    else .ok (s.addAccount identifier {account with userData := userData})
  | none => .error .impossible

def step (s : NXOAuth2AccountStore) : Event → Except Halt NXOAuth2AccountStore
  | .setConfiguration configuration accountType =>
    .ok {s with configurations := s.configurations.insert accountType configuration}
  | .requestAccess accountType => s.requestAccess accountType
  | .handleRedirectURL url enumerated members => s.handleRedirectURL url enumerated members
  | .tokenAnswered accountType newToken identifier =>
    s.tokenAnswered accountType newToken identifier
  | .tokenFailed accountType => s.tokenFailed accountType
  -- the store looks in vain for the account type of the client
  | .orphanEnded => if s.orphaned = 0 then .error .impossible else .error .raised
  | .performRequest identifier => s.performRequest identifier
  | .refreshAccessToken identifier => s.refreshAccessToken identifier
  | .retryAfterDelay identifier => s.retryAfterDelay identifier
  | .refreshAnswered identifier newToken => s.refreshAnswered identifier newToken
  | .refreshFailed identifier error => s.refreshFailed identifier error
  | .tokenRejected identifier => s.tokenRejected identifier
  | .setUserData identifier userData sameObject => s.setUserData identifier userData sameObject
  | .removeAccount identifier => .ok (s.removeAccount identifier)
  | .relaunch => .ok (init s.keychain)

variable {s t : NXOAuth2AccountStore} {identifier : Text} {account : NXOAuth2Account}
  {client : NXOAuth2Client}

theorem lookup_setAccount (i identifier : Text) :
    (s.setAccount identifier account).accountsDict.lookup i =
      if i = identifier then some account else s.accountsDict.lookup i :=
  Dictionary.lookup_put i identifier (some account) s.accountsDict

@[simp] theorem lookup_setAccount_self (s : NXOAuth2AccountStore) (identifier : Text)
    (account : NXOAuth2Account) :
    (s.setAccount identifier account).accountsDict.lookup identifier = some account := by
  rw [lookup_setAccount,if_pos rfl]

@[simp] theorem keychain_setAccount :
    (s.setAccount identifier account).keychain = s.keychain := rfl

@[simp] theorem pending_setAccount :
    (s.setAccount identifier account).pendingOAuthClients = s.pendingOAuthClients := rfl

@[simp] theorem accountsDict_addAccount :
    (s.addAccount identifier account).accountsDict =
      (s.setAccount identifier account).accountsDict := rfl

@[simp] theorem pending_addAccount :
    (s.addAccount identifier account).pendingOAuthClients = s.pendingOAuthClients := rfl

@[simp] theorem pending_removeAccount :
    (s.removeAccount identifier).pendingOAuthClients = s.pendingOAuthClients := rfl

theorem lookup_removeAccount (i identifier : Text) :
    (s.removeAccount identifier).accountsDict.lookup i =
      if i = identifier then none else s.accountsDict.lookup i :=
  Dictionary.lookup_put i identifier none s.accountsDict

def Stored (s : NXOAuth2AccountStore) : Prop :=
  ∀ i, s.keychain.lookup i = (s.accountsDict.lookup i).map NXOAuth2Account.encodeWithCoder

theorem stored_storeAccounts (s : NXOAuth2AccountStore) :
    s.storeAccountsInDefaultKeychain.Stored :=
  fun i => Dictionary.lookup_mapValues _ s.accountsDict i

theorem stored_addAccount : (s.addAccount identifier account).Stored := stored_storeAccounts _

theorem stored_removeAccount : (s.removeAccount identifier).Stored := stored_storeAccounts _

theorem stored_init (keychain : Dictionary Text ArchivedAccount) : (init keychain).Stored := by
  intro i
  simp only [init,Dictionary.lookup_mapValues,Option.map_map]
  cases keychain.lookup i with
  | none => rfl
  | some archived => rfl

theorem withClient_eq_ok
    {react : NXOAuth2Account → NXOAuth2Client → Except Halt NXOAuth2AccountStore} :
    s.withClient identifier react = .ok t ↔ ∃ account client,
      s.accountsDict.lookup identifier = some account ∧ account.oauthClient = some client ∧
        react account client = .ok t := by
  rw [withClient]
  cases haccount : s.accountsDict.lookup identifier with
  | none => simp
  | some account =>
    cases hclient : account.oauthClient with
    | none => simp [hclient]
    | some client => simp [hclient]

/-- Nothing but the pending clients and what is opened may have changed. -/
structure SameAccounts (s t : NXOAuth2AccountStore) : Prop where
  accounts : t.accountsDict = s.accountsDict
  keychain : t.keychain = s.keychain

theorem SameAccounts.refl (s : NXOAuth2AccountStore) : SameAccounts s s := ⟨rfl,rfl⟩

theorem SameAccounts.trans {u : NXOAuth2AccountStore} (h : SameAccounts s t)
    (h' : SameAccounts t u) : SameAccounts s u :=
  ⟨h'.accounts.trans h.accounts,h'.keychain.trans h.keychain⟩

/-- A client that logs in has no token, and the store is its delegate. -/
def PendingClean (s : NXOAuth2AccountStore) : Prop :=
  ∀ accountType client, s.pendingOAuthClients.lookup accountType = some client →
    client.delegate = .store ∧ client.accessToken = none

theorem pendingClean_insert {accountType : Text} (h : s.PendingClean)
    (hclient : client.delegate = .store ∧ client.accessToken = none) :
    PendingClean {s with
      pendingOAuthClients := s.pendingOAuthClients.insert accountType client} := by
  intro j c hc
  have hlookup := Dictionary.lookup_put j accountType (some client) s.pendingOAuthClients
  rw [Dictionary.put] at hlookup
  rw [hlookup] at hc
  split_ifs at hc with hj
  · obtain rfl := Option.some.inj hc
    exact hclient
  · exact h j c hc

theorem pendingClean_dropPending {accountType : Text} (h : s.PendingClean) :
    (s.dropPending accountType client).PendingClean := by
  intro j c hc
  have hlookup := Dictionary.lookup_put j accountType none s.pendingOAuthClients
  rw [Dictionary.put] at hlookup
  rw [dropPending,hlookup] at hc
  split_ifs at hc
  exact h j c hc

theorem pendingOAuthClient_cases {accountType : Text}
    (h : s.pendingOAuthClientForAccountType accountType = .ok (t,client)) :
    (s.pendingOAuthClients.lookup accountType = some client ∧ t = s) ∨
      ∃ configuration, s.pendingOAuthClients.lookup accountType = none ∧
        client = newClient configuration ∧ t = {s with
          pendingOAuthClients := s.pendingOAuthClients.insert accountType client} := by
  rw [pendingOAuthClientForAccountType] at h
  cases hpending : s.pendingOAuthClients.lookup accountType with
  | some c =>
    simp only [hpending,Except.ok.injEq,Prod.mk.injEq] at h
    exact Or.inl ⟨by rw [h.2],h.1.symm⟩
  | none =>
    cases hconfiguration : s.configurations.lookup accountType with
    | none => simp [hpending,hconfiguration] at h
    | some configuration =>
      simp only [hpending,hconfiguration,Except.ok.injEq,Prod.mk.injEq] at h
      obtain ⟨rfl,rfl⟩ := h
      exact Or.inr ⟨configuration,rfl,rfl,rfl⟩

theorem pendingOAuthClient_spec {accountType : Text} (hs : s.PendingClean)
    (h : s.pendingOAuthClientForAccountType accountType = .ok (t,client)) :
    SameAccounts s t ∧ t.PendingClean ∧ client.delegate = .store ∧ client.accessToken = none := by
  rcases pendingOAuthClient_cases h with ⟨hlookup,rfl⟩ | ⟨configuration,_,rfl,rfl⟩
  · exact ⟨.refl _,hs,hs accountType client hlookup⟩
  · exact ⟨⟨rfl,rfl⟩,pendingClean_insert hs ⟨rfl,rfl⟩,rfl,rfl⟩

theorem openFirst_spec {url : Text} {members : List Text} (hs : s.PendingClean)
    (h : openFirst url members s = .ok t) : SameAccounts s t ∧ t.PendingClean := by
  induction members generalizing s with
  | nil =>
    obtain rfl := Except.ok.inj h
    exact ⟨.refl _,hs⟩
  | cons accountType members ih =>
    rw [openFirst] at h
    obtain ⟨⟨s',client⟩,hclient,h⟩ := Runs.bind_eq_ok.mp h
    obtain ⟨hsame,hclean,hc⟩ := pendingOAuthClient_spec hs hclient
    dsimp only at h
    split at h
    · exact absurd h (by simp)
    · obtain rfl := Except.ok.inj h
      exact ⟨hsame.trans ⟨rfl,rfl⟩,pendingClean_insert hclean hc⟩
    · have hdropped : SameAccounts s' (s'.dropPending accountType client) := ⟨rfl,rfl⟩
      obtain ⟨hsame',hclean'⟩ := ih (pendingClean_dropPending hclean) h
      exact ⟨(hsame.trans hdropped).trans hsame',hclean'⟩
    · obtain ⟨hsame',hclean'⟩ := ih hclean h
      exact ⟨hsame.trans hsame',hclean'⟩

theorem requestAccess_spec {accountType : Text} (hs : s.PendingClean)
    (h : s.requestAccess accountType = .ok t) : SameAccounts s t ∧ t.PendingClean := by
  rw [requestAccess] at h
  obtain ⟨⟨s',client⟩,hclient,h⟩ := Runs.bind_eq_ok.mp h
  obtain ⟨hsame,hclean,hc⟩ := pendingOAuthClient_spec hs hclient
  dsimp only at h
  rw [if_pos (by simp [hc.2])] at h
  obtain rfl := Except.ok.inj h
  rw [oauthClientNeedsAuthentication]
  cases s'.configurations.lookup accountType with
  | none => exact ⟨hsame,hclean⟩
  | some configuration => exact ⟨⟨hsame.accounts,hsame.keychain⟩,hclean⟩

theorem handleRedirectURL_spec {url : Text} {enumerated members : List Text}
    (hs : s.PendingClean) (h : s.handleRedirectURL url enumerated members = .ok t) :
    SameAccounts s t ∧ t.PendingClean := by
  rw [handleRedirectURL] at h
  split_ifs at h
  cases hfixed : s.fixedRedirectURL url enumerated with
  | none =>
    rw [hfixed] at h
    obtain rfl := Except.ok.inj h
    exact ⟨.refl _,hs⟩
  | some fixedRedirectURL =>
    rw [hfixed] at h
    exact openFirst_spec hs h

/-- The answers that change the token of an account's client. -/
def AboutToken : Event → Prop
  | .refreshAnswered _ _ => True
  | .refreshFailed _ _ => True
  | .tokenRejected _ => True
  | _ => False

/-- What the other steps do to the accounts and to the keychain. -/
inductive Quiet (s t : NXOAuth2AccountStore) : Prop
  | same (h : SameAccounts s t)
  | loggedIn (identifier : Text) (account : NXOAuth2Account) (client : NXOAuth2Client)
    (hnew : s.accountsDict.lookup identifier = none) (hclient : account.oauthClient = some client)
    (hdelegate : client.delegate = .store) (htoken : account.accessToken = client.accessToken)
    (hsome : account.accessToken ≠ none) (h : SameAccounts (s.addAccount identifier account) t)
  | used (identifier : Text) (account : NXOAuth2Account) (client client' : NXOAuth2Client)
    (haccount : s.accountsDict.lookup identifier = some account)
    (hclient : s.oauthClient account = .ok client)
    (hdelegate : client'.delegate = client.delegate)
    (htoken : client'.accessToken = client.accessToken)
    (h : t = s.setAccount identifier {account with oauthClient := some client'})
  | userData (identifier : Text) (account : NXOAuth2Account) (data : Option Text)
    (haccount : s.accountsDict.lookup identifier = some account)
    (h : t = s.addAccount identifier {account with userData := data})
  | removed (identifier : Text) (h : t = s.removeAccount identifier)
  | relaunched (h : t = init s.keychain)

theorem refreshAccessToken_client {client' : NXOAuth2Client}
    (h : client.refreshAccessToken = .ok client') :
    client'.delegate = client.delegate ∧ client'.accessToken = client.accessToken := by
  rw [NXOAuth2Client.refreshAccessToken] at h
  split_ifs at h
  · obtain rfl := Except.ok.inj h
    exact ⟨rfl,rfl⟩
  · cases htoken : client.accessToken.bind NXOAuth2AccessToken.refreshToken with
    | none => simp [htoken] at h
    | some token =>
      simp only [htoken,Except.ok.injEq] at h
      rw [← h]
      exact ⟨rfl,rfl⟩

theorem restoreWithOldToken_none (token : NXOAuth2AccessToken) :
    token.restoreWithOldToken none = token := by
  rw [NXOAuth2AccessToken.restoreWithOldToken]
  split_ifs with hrefresh
  · obtain ⟨accessToken,refreshToken⟩ := token
    obtain rfl : refreshToken = none := hrefresh
    rfl
  · rfl

theorem didFinishWithToken_eq (client : NXOAuth2Client) (token : NXOAuth2AccessToken) :
    client.didFinishWithToken token =
      ({client with
        accessToken := some (token.restoreWithOldToken client.accessToken)
        authConnection := none
        refreshConnectionDidRetryCount := 0},
      some (if client.accessToken = none then .didGetAccessToken else .didRefreshAccessToken)) := by
  rw [NXOAuth2Client.didFinishWithToken]
  cases hold : client.accessToken with
  | none => simp [NXOAuth2Client.setAccessToken,hold]
  | some old => simp [NXOAuth2Client.setAccessToken,hold]

theorem tokenAnswered_cases {accountType : Text} {newToken : Option NXOAuth2AccessToken}
    (hs : s.PendingClean) (h : s.tokenAnswered accountType newToken identifier = .ok t) :
    ∃ client token, s.pendingOAuthClients.lookup accountType = some client ∧
      client.authConnection = some .tokenRequest ∧ s.accountsDict.lookup identifier = none ∧
      newToken = some token ∧
      t = {s with
        pendingOAuthClients := s.pendingOAuthClients.erase accountType}.addAccount identifier
        ⟨accountType,some token,none,some {client with
          accessToken := some token
          authConnection := none
          refreshConnectionDidRetryCount := 0}⟩ := by
  rw [tokenAnswered] at h
  cases hpending : s.pendingOAuthClients.lookup accountType with
  | none => simp [hpending] at h
  | some client =>
    simp only [hpending] at h
    split_ifs at h with hrunning
    cases newToken with
    | none => simp at h
    | some token =>
      have hnone := (hs accountType client hpending).2
      simp only [didFinishWithToken_eq,hnone,restoreWithOldToken_none,Except.ok.injEq] at h
      exact ⟨client,token,rfl,hrunning.1,hrunning.2,rfl,h.symm⟩

theorem tokenFailed_cases {accountType : Text} (h : s.tokenFailed accountType = .ok t) :
    ∃ client, s.pendingOAuthClients.lookup accountType = some client ∧
      client.authConnection = some .tokenRequest ∧
      t = s.dropPending accountType {client with authConnection := none} := by
  rw [tokenFailed] at h
  cases hpending : s.pendingOAuthClients.lookup accountType with
  | none => simp [hpending] at h
  | some client =>
    simp only [hpending] at h
    split_ifs at h with hrunning
    exact ⟨client,rfl,hrunning,(Except.ok.inj h).symm⟩

theorem performRequest_cases (h : s.performRequest identifier = .ok t) :
    ∃ account client, s.accountsDict.lookup identifier = some account ∧
      s.oauthClient account = .ok client ∧
      t = s.setAccount identifier {account with oauthClient := some client} := by
  rw [performRequest] at h
  cases haccount : s.accountsDict.lookup identifier with
  | none => simp [haccount] at h
  | some account =>
    simp only [haccount] at h
    obtain ⟨client,hclient,h⟩ := Runs.bind_eq_ok.mp h
    exact ⟨account,client,rfl,hclient,(Except.ok.inj h).symm⟩

theorem setUserData_cases {userData : Option Text} {sameObject : Bool}
    (h : s.setUserData identifier userData sameObject = .ok t) :
    t = s ∨ ∃ account, s.accountsDict.lookup identifier = some account ∧
      t = s.addAccount identifier {account with userData := userData} := by
  rw [setUserData] at h
  cases haccount : s.accountsDict.lookup identifier with
  | none => simp [haccount] at h
  | some account =>
    simp only [haccount] at h
    split_ifs at h
    · exact Or.inl (Except.ok.inj h).symm
    · exact Or.inr ⟨account,rfl,(Except.ok.inj h).symm⟩

theorem refreshAccessToken_cases (h : s.refreshAccessToken identifier = .ok t) :
    ∃ account client client', s.accountsDict.lookup identifier = some account ∧
      s.oauthClient account = .ok client ∧ client'.delegate = client.delegate ∧
      client'.accessToken = client.accessToken ∧
      t = s.setAccount identifier {account with oauthClient := some client'} := by
  rw [refreshAccessToken] at h
  cases haccount : s.accountsDict.lookup identifier with
  | none => simp [haccount] at h
  | some account =>
    simp only [haccount] at h
    obtain ⟨client,hclient,h⟩ := Runs.bind_eq_ok.mp h
    obtain ⟨client',hrefresh,h⟩ := Runs.bind_eq_ok.mp h
    obtain rfl := Except.ok.inj h
    obtain ⟨hdelegate,htoken⟩ := refreshAccessToken_client hrefresh
    exact ⟨account,client,client',rfl,hclient,hdelegate,htoken,rfl⟩

theorem retryAfterDelay_cases (h : s.retryAfterDelay identifier = .ok t) :
    ∃ account client client', s.accountsDict.lookup identifier = some account ∧
      s.oauthClient account = .ok client ∧ client'.delegate = client.delegate ∧
      client'.accessToken = client.accessToken ∧
      t = s.setAccount identifier {account with oauthClient := some client'} := by
  obtain ⟨account,client,haccount,hclient,h⟩ := withClient_eq_ok.mp h
  split_ifs at h
  obtain ⟨client',hrefresh,h⟩ := Runs.bind_eq_ok.mp h
  obtain rfl := Except.ok.inj h
  obtain ⟨hdelegate,htoken⟩ := refreshAccessToken_client hrefresh
  have hown : s.oauthClient account = .ok client := by
    rw [oauthClient,hclient]
  exact ⟨account,client,client',haccount,hown,hdelegate,htoken,rfl⟩

theorem quiet_step {e : Event} (he : ¬AboutToken e) (hs : s.PendingClean)
    (h : s.step e = .ok t) : Quiet s t ∧ t.PendingClean := by
  cases e with
  | setConfiguration configuration accountType =>
    obtain rfl := Except.ok.inj h
    exact ⟨.same ⟨rfl,rfl⟩,hs⟩
  | requestAccess accountType =>
    obtain ⟨hsame,hclean⟩ := requestAccess_spec hs h
    exact ⟨.same hsame,hclean⟩
  | handleRedirectURL url enumerated members =>
    obtain ⟨hsame,hclean⟩ := handleRedirectURL_spec hs h
    exact ⟨.same hsame,hclean⟩
  | tokenAnswered accountType newToken identifier =>
    obtain ⟨client,token,hpending,_,hnew,_,rfl⟩ := tokenAnswered_cases hs h
    have hclean : PendingClean (s.dropPending accountType client) := pendingClean_dropPending hs
    let client' := {client with
      accessToken := some token
      authConnection := none
      refreshConnectionDidRetryCount := 0}
    exact ⟨.loggedIn identifier ⟨accountType,some token,none,some client'⟩ client' hnew rfl
      (hs accountType client hpending).1 rfl (by simp) ⟨rfl,rfl⟩,hclean⟩
  | tokenFailed accountType =>
    obtain ⟨client,_,_,rfl⟩ := tokenFailed_cases h
    exact ⟨.same ⟨rfl,rfl⟩,pendingClean_dropPending hs⟩
  | orphanEnded =>
    rw [step] at h
    split_ifs at h
  | performRequest identifier =>
    obtain ⟨account,client,haccount,hclient,rfl⟩ := performRequest_cases h
    exact ⟨.used identifier account client client haccount hclient rfl rfl rfl,hs⟩
  | refreshAccessToken identifier =>
    obtain ⟨account,client,client',haccount,hclient,hdelegate,htoken,rfl⟩ :=
      refreshAccessToken_cases h
    exact ⟨.used identifier account client client' haccount hclient hdelegate htoken rfl,hs⟩
  | retryAfterDelay identifier =>
    obtain ⟨account,client,client',haccount,hclient,hdelegate,htoken,rfl⟩ :=
      retryAfterDelay_cases h
    exact ⟨.used identifier account client client' haccount hclient hdelegate htoken rfl,hs⟩
  | refreshAnswered identifier newToken => exact absurd trivial he
  | refreshFailed identifier error => exact absurd trivial he
  | tokenRejected identifier => exact absurd trivial he
  | setUserData identifier data sameObject =>
    rcases setUserData_cases h with rfl | ⟨account,haccount,rfl⟩
    · exact ⟨.same (.refl _),hs⟩
    · exact ⟨.userData identifier account data haccount rfl,hs⟩
  | removeAccount identifier =>
    obtain rfl := Except.ok.inj h
    exact ⟨.removed identifier rfl,hs⟩
  | relaunch =>
    obtain rfl := Except.ok.inj h
    refine ⟨.relaunched rfl,fun accountType client hclient => ?_⟩
    simp [init] at hclient

/-- The store does not hear of a refresh, and an account takes the new token over. -/
theorem refreshAnswered_cases {newToken : Option NXOAuth2AccessToken}
    (h : s.refreshAnswered identifier newToken = .ok t) :
    ∃ account client token client', s.accountsDict.lookup identifier = some account ∧
      account.oauthClient = some client ∧ newToken = some token ∧
      client'.delegate = client.delegate ∧
      client'.accessToken = some (token.restoreWithOldToken client.accessToken) ∧
      ((client.delegate = .store ∧
          t = s.setAccount identifier {account with oauthClient := some client'}) ∨
        (client.delegate = .account ∧ t = s.addAccount identifier
          {account with accessToken := client'.accessToken,oauthClient := some client'})) := by
  obtain ⟨account,client,haccount,hclient,h⟩ := withClient_eq_ok.mp h
  split_ifs at h
  cases newToken with
  | none => simp at h
  | some token =>
    simp only [didFinishWithToken_eq] at h
    generalize hrestored : token.restoreWithOldToken client.accessToken = restored at h
    refine ⟨account,client,token,{client with
      accessToken := some restored
      authConnection := none
      refreshConnectionDidRetryCount := 0},haccount,hclient,rfl,rfl,by rw [hrestored],?_⟩
    cases hdelegate : client.delegate with
    | store =>
      by_cases hold : client.accessToken = none
      · simp [hear,hold,hdelegate] at h
      · simp only [hear,hold,hdelegate,if_false,Except.ok.injEq] at h
        exact Or.inl ⟨rfl,h.symm⟩
    | account =>
      by_cases hold : client.accessToken = none
      · simp only [hear,hold,hdelegate,if_true,Except.ok.injEq] at h
        exact Or.inr ⟨rfl,h.symm⟩
      · simp only [hear,hold,hdelegate,if_false,Except.ok.injEq] at h
        exact Or.inr ⟨rfl,h.symm⟩

/-- A rejected token is lost to the client, and with its own client the account is removed. -/
theorem tokenRejected_cases (h : s.tokenRejected identifier = .ok t) :
    ∃ account client, s.accountsDict.lookup identifier = some account ∧
      account.oauthClient = some client ∧
      ((client.accessToken = none ∧
          t = s.setAccount identifier {account with oauthClient := some client}) ∨
        (client.accessToken ≠ none ∧ client.delegate = .store ∧ t = s.setAccount identifier
          {account with oauthClient := some {client with accessToken := none}}) ∨
        (client.accessToken ≠ none ∧ client.delegate = .account ∧
          t = s.removeAccount identifier)) := by
  obtain ⟨account,client,haccount,hclient,h⟩ := withClient_eq_ok.mp h
  refine ⟨account,client,haccount,hclient,?_⟩
  cases hold : client.accessToken with
  | none =>
    simp only [NXOAuth2Client.setAccessToken,hold,hear,Except.ok.injEq] at h
    exact Or.inl ⟨rfl,h.symm⟩
  | some old =>
    cases hdelegate : client.delegate with
    | store =>
      simp only [NXOAuth2Client.setAccessToken,hold,hear,hdelegate,Except.ok.injEq] at h
      exact Or.inr (Or.inl ⟨by simp,rfl,h.symm⟩)
    | account =>
      simp only [NXOAuth2Client.setAccessToken,hold,hear,hdelegate,Except.ok.injEq] at h
      exact Or.inr (Or.inr ⟨by simp,rfl,h.symm⟩)

theorem forgetToken_setAccount :
    (s.setAccount identifier account).forgetToken identifier =
      s.setAccount identifier {account with accessToken := none} := by
  rw [forgetToken,lookup_setAccount_self]
  dsimp only
  rw [setAccount,setAccount,setAccount]
  simp only [AList.insert_insert]

theorem forgetToken_removeAccount :
    (s.removeAccount identifier).forgetToken identifier = s.removeAccount identifier := by
  rw [forgetToken,lookup_removeAccount,if_pos rfl]

/-- The account of a client that gives up forgets its token, unless it is removed with a token
that got invalid. With the store for its delegate a client does not get so far. -/
theorem didFailToGetAccessToken_cases {error : ConnectionError}
    (h : s.didFailToGetAccessToken identifier account client error = .ok t) :
    client.delegate = .account ∧
      ((error = .http 401 ∧ client.accessToken ≠ none ∧ t = s.removeAccount identifier) ∨
        (¬(error = .http 401 ∧ client.accessToken ≠ none) ∧ t = s.setAccount identifier
          {account with accessToken := none,oauthClient := some client})) := by
  rw [didFailToGetAccessToken] at h
  have hkept : ∀ client' : NXOAuth2Client × Option News, client' = (client,none) →
      (do
        let s ← s.hear identifier account client'.1 client'.2
        match client'.1.delegate with
        | .store => .error .raised
        | .account => return s.forgetToken identifier) = Except.ok t →
      client.delegate = .account ∧ t = s.setAccount identifier
          {account with accessToken := none,oauthClient := some client} := by
    rintro _ rfl h
    cases hdelegate : client.delegate with
    | store => simp [hear,hdelegate,bind,Except.bind] at h
    | account =>
      simp only [hear,hdelegate,bind,Except.bind,pure,Except.pure,Except.ok.injEq,
        forgetToken_setAccount] at h
      exact ⟨rfl,h.symm⟩
  by_cases herror : error = .http 401
  · cases hold : client.accessToken with
    | none =>
      have hreset : client.resetToken error = (client,none) := by
        simp only [NXOAuth2Client.resetToken,if_pos herror,NXOAuth2Client.setAccessToken,hold]
      obtain ⟨hdelegate,ht⟩ := hkept _ hreset h
      exact ⟨hdelegate,Or.inr ⟨by simp,ht⟩⟩
    | some old =>
      have hreset : client.resetToken error =
          ({client with accessToken := none},some .didLoseAccessToken) := by
        simp only [NXOAuth2Client.resetToken,if_pos herror,NXOAuth2Client.setAccessToken,hold]
      rw [hreset] at h
      cases hdelegate : client.delegate with
      | store => simp [hear,hdelegate,bind,Except.bind] at h
      | account =>
        simp only [hear,hdelegate,bind,Except.bind,pure,Except.pure,Except.ok.injEq,
          forgetToken_removeAccount] at h
        exact ⟨rfl,Or.inl ⟨herror,by simp,h.symm⟩⟩
  · have hreset : client.resetToken error = (client,none) := by
      rw [NXOAuth2Client.resetToken,if_neg herror]
    obtain ⟨hdelegate,ht⟩ := hkept _ hreset h
    exact ⟨hdelegate,Or.inr ⟨fun hboth => herror hboth.1,ht⟩⟩

theorem refreshFailed_cases {error : ConnectionError}
    (h : s.refreshFailed identifier error = .ok t) :
    ∃ account client client', s.accountsDict.lookup identifier = some account ∧
      account.oauthClient = some client ∧ client'.delegate = client.delegate ∧
      client'.accessToken = client.accessToken ∧
      ((client.retries error = true ∧
          t = s.setAccount identifier {account with oauthClient := some client'}) ∨
        (client.retries error = false ∧ client.delegate = .account ∧
          ((error = .http 401 ∧ client.accessToken ≠ none ∧ t = s.removeAccount identifier) ∨
            (¬(error = .http 401 ∧ client.accessToken ≠ none) ∧ t = s.setAccount identifier
              {account with accessToken := none,oauthClient := some client'})))) := by
  obtain ⟨account,client,haccount,hclient,h⟩ := withClient_eq_ok.mp h
  split_ifs at h with hrunning hretries
  · exact ⟨account,client,{client with
      authConnection := none
      refreshConnectionDidRetryCount := client.refreshConnectionDidRetryCount+1
      refreshScheduled := client.refreshScheduled+1},haccount,hclient,rfl,rfl,
      Or.inl ⟨hretries,(Except.ok.inj h).symm⟩⟩
  · obtain ⟨hdelegate,hcases⟩ := didFailToGetAccessToken_cases h
    exact ⟨account,client,{client with authConnection := none},haccount,hclient,rfl,rfl,
      Or.inr ⟨Bool.eq_false_iff.mpr hretries,hdelegate,hcases⟩⟩

end NXOAuth2AccountStore

end OAuth2
end CourseraObjC
