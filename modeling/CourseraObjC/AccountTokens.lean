import CourseraObjC.AccountStore

/-! What becomes of the tokens: an account, its client and the keychain each have one, and an
account that was made by a login is not told what happens to its client's. -/
namespace CourseraObjC
namespace OAuth2
namespace NXOAuth2AccountStore

open Runs QueryParameters

/-- A relation between the tokens of an account and of its client, given who hears the client,
that holds of every account with a client. -/
def Everywhere (R : Option NXOAuth2AccessToken → Delegate → Option NXOAuth2AccessToken → Prop)
    (s : NXOAuth2AccountStore) : Prop :=
  ∀ i account client, s.accountsDict.lookup i = some account →
    account.oauthClient = some client → R account.accessToken client.delegate client.accessToken

/-- A login leaves the store for a delegate, which tells the account nothing; an account that
made its client hears of every token, until it forgets its own. -/
def Told (token : Option NXOAuth2AccessToken) (delegate : Delegate)
    (clientToken : Option NXOAuth2AccessToken) : Prop :=
  match delegate with
  | .store => token ≠ none
  | .account => token ≠ none → token = clientToken

def Agree (token : Option NXOAuth2AccessToken) (_ : Delegate)
    (clientToken : Option NXOAuth2AccessToken) : Prop := token = clientToken

structure Sound (s : NXOAuth2AccountStore) : Prop where
  pending : s.PendingClean
  told : s.Everywhere Told

section Clients

variable {R : Option NXOAuth2AccessToken → Delegate → Option NXOAuth2AccessToken → Prop}
  {s t : NXOAuth2AccountStore} {identifier : Text} {account : NXOAuth2Account}
  {client : NXOAuth2Client}

theorem everywhere_setAccount (hs : s.Everywhere R) (identifier : Text)
    {account : NXOAuth2Account} (hclient : account.oauthClient = some client) :
    (s.setAccount identifier account).Everywhere R ↔
      R account.accessToken client.delegate client.accessToken := by
  constructor
  · intro h
    exact h identifier account client (lookup_setAccount_self s identifier account) hclient
  · intro h i a c ha hc
    rw [lookup_setAccount] at ha
    split_ifs at ha
    · obtain rfl := Option.some.inj ha
      obtain rfl := Option.some.inj (hclient.symm.trans hc)
      exact h
    · exact hs i a c ha hc

theorem everywhere_removeAccount (hs : s.Everywhere R) :
    (s.removeAccount identifier).Everywhere R := by
  intro i a c ha hc
  rw [lookup_removeAccount] at ha
  split_ifs at ha
  exact hs i a c ha hc

theorem everywhere_same (hs : s.Everywhere R) (h : SameAccounts s t) : t.Everywhere R := by
  intro i a c ha hc
  rw [h.accounts] at ha
  exact hs i a c ha hc

theorem everywhere_init (keychain : Dictionary Text ArchivedAccount) :
    (init keychain).Everywhere R := by
  intro i a c ha hc
  simp only [init,Dictionary.lookup_mapValues,Option.map_eq_some_iff] at ha
  obtain ⟨archived,_,rfl⟩ := ha
  exact absurd hc (by simp [ArchivedAccount.initWithCoder])

theorem oauthClient_related (hown : ∀ token, R token .account token) (hs : s.Everywhere R)
    (haccount : s.accountsDict.lookup identifier = some account)
    (hclient : s.oauthClient account = .ok client) :
    R account.accessToken client.delegate client.accessToken := by
  rw [oauthClient] at hclient
  cases hold : account.oauthClient with
  | some c =>
    simp only [hold,Except.ok.injEq] at hclient
    obtain rfl := hclient
    exact hs identifier account c haccount hold
  | none =>
    cases hconfiguration : s.configurations.lookup account.accountType with
    | none => simp [hold,hconfiguration] at hclient
    | some configuration =>
      simp only [hold,hconfiguration,Except.ok.injEq] at hclient
      obtain rfl := hclient
      exact hown account.accessToken

/-- Steps that are about no client's token keep what a login begins with, and what an account
begins with that makes its client. -/
theorem everywhere_quiet (hlogin : ∀ token, token ≠ none → R token .store token)
    (hown : ∀ token, R token .account token) (hs : s.Everywhere R) (h : Quiet s t) :
    t.Everywhere R := by
  cases h with
  | same h => exact everywhere_same hs h
  | loggedIn identifier account client hnew hclient hdelegate htoken hsome h =>
    have hR : R account.accessToken client.delegate client.accessToken := by
      rw [hdelegate,← htoken]
      exact hlogin account.accessToken hsome
    have hset := (everywhere_setAccount hs identifier hclient).mpr hR
    have hadded : (s.addAccount identifier account).Everywhere R := hset
    exact everywhere_same hadded h
  | used identifier account client client' haccount hclient hdelegate htoken h =>
    have hR := oauthClient_related hown hs haccount hclient
    rw [← hdelegate,← htoken] at hR
    rw [h]
    exact (everywhere_setAccount hs identifier rfl).mpr hR
  | userData identifier account data haccount h =>
    rw [h]
    intro i a c ha hc
    rw [accountsDict_addAccount,lookup_setAccount] at ha
    split_ifs at ha
    · obtain rfl := Option.some.inj ha
      exact hs identifier account c haccount hc
    · exact hs i a c ha hc
  | removed identifier h =>
    rw [h]
    exact everywhere_removeAccount hs
  | relaunched h =>
    rw [h]
    exact everywhere_init s.keychain

end Clients

variable {s t : NXOAuth2AccountStore}

theorem sound_init (keychain : Dictionary Text ArchivedAccount) : (init keychain).Sound := by
  refine ⟨fun accountType client hclient => ?_,everywhere_init keychain⟩
  simp [init] at hclient

theorem told_own (token : Option NXOAuth2AccessToken) : Told token .account token := fun _ => rfl

theorem told_login {token : Option NXOAuth2AccessToken} (h : token ≠ none) :
    Told token .store token := h

theorem sound_step (e : Event) (s t : NXOAuth2AccountStore) (hs : s.Sound)
    (h : s.step e = .ok t) : t.Sound := by
  by_cases he : AboutToken e
  · cases e with
    | refreshAnswered identifier newToken =>
      obtain ⟨account,client,token,client',haccount,hclient,_,hdelegate,_,hcases⟩ :=
        refreshAnswered_cases h
      have htold := hs.told identifier account client haccount hclient
      rcases hcases with ⟨hstore,rfl⟩ | ⟨hown,rfl⟩
      · refine ⟨hs.pending,(everywhere_setAccount hs.told identifier rfl).mpr ?_⟩
        rw [hdelegate,hstore]
        rw [hstore] at htold
        exact htold
      · refine ⟨hs.pending,(everywhere_setAccount hs.told identifier rfl).mpr ?_⟩
        rw [hdelegate,hown]
        exact told_own client'.accessToken
    | refreshFailed identifier error =>
      obtain ⟨account,client,client',haccount,hclient,hdelegate,htoken,hcases⟩ :=
        refreshFailed_cases h
      have htold := hs.told identifier account client haccount hclient
      rcases hcases with ⟨_,rfl⟩ | ⟨_,hown,⟨_,_,rfl⟩ | ⟨_,rfl⟩⟩
      · refine ⟨hs.pending,(everywhere_setAccount hs.told identifier rfl).mpr ?_⟩
        rw [hdelegate,htoken]
        exact htold
      · exact ⟨hs.pending,everywhere_removeAccount hs.told⟩
      · refine ⟨hs.pending,(everywhere_setAccount hs.told identifier rfl).mpr ?_⟩
        rw [hdelegate,hown]
        exact fun hnone => absurd rfl hnone
    | tokenRejected identifier =>
      obtain ⟨account,client,haccount,hclient,hcases⟩ := tokenRejected_cases h
      have htold := hs.told identifier account client haccount hclient
      rcases hcases with ⟨_,rfl⟩ | ⟨_,hstore,rfl⟩ | ⟨_,_,rfl⟩
      · exact ⟨hs.pending,(everywhere_setAccount hs.told identifier rfl).mpr htold⟩
      · refine ⟨hs.pending,(everywhere_setAccount hs.told identifier rfl).mpr ?_⟩
        dsimp only
        rw [hstore] at htold ⊢
        exact htold
      · exact ⟨hs.pending,everywhere_removeAccount hs.told⟩
    | _ => exact absurd he id
  · obtain ⟨hquiet,hpending⟩ := quiet_step he hs.pending h
    exact ⟨hpending,everywhere_quiet (fun _ => told_login) told_own hs.told hquiet⟩

def AtClient (s : NXOAuth2AccountStore) (identifier : Text)
    (p : NXOAuth2Account → NXOAuth2Client → Prop) : Prop :=
  ∀ account client, s.accountsDict.lookup identifier = some account →
    account.oauthClient = some client → p account client

theorem atClient_iff {identifier : Text} {p : NXOAuth2Account → NXOAuth2Client → Prop}
    {account : NXOAuth2Account} {client : NXOAuth2Client}
    (haccount : s.accountsDict.lookup identifier = some account)
    (hclient : account.oauthClient = some client) :
    s.AtClient identifier p ↔ p account client := by
  constructor
  · intro h
    exact h account client haccount hclient
  · intro h account' client' haccount' hclient'
    obtain rfl := Option.some.inj (haccount.symm.trans haccount')
    obtain rfl := Option.some.inj (hclient.symm.trans hclient')
    exact h

/-- An event after which the token of an account and that of its client are still the same, as
they were before: a refresh or a rejection is heard of, and no refresh fails for good but with
an invalid token. -/
def KeepsAgreement (s : NXOAuth2AccountStore) : Event → Prop
  | .refreshAnswered identifier newToken => s.AtClient identifier fun _ client =>
    ∀ token, newToken = some token → client.delegate = .store →
      some (token.restoreWithOldToken client.accessToken) = client.accessToken
  | .refreshFailed identifier error => s.AtClient identifier fun _ client =>
    client.retries error = false → client.accessToken = none ∨ error = .http 401
  | .tokenRejected identifier => s.AtClient identifier fun _ client => client.delegate = .account
  | _ => True

theorem agree_step (e : Event) (s t : NXOAuth2AccountStore) (hs : s.Sound)
    (hagree : s.Everywhere Agree) (h : s.step e = .ok t) :
    t.Everywhere Agree ↔ s.KeepsAgreement e := by
  by_cases he : AboutToken e
  · cases e with
    | refreshAnswered identifier newToken =>
      obtain ⟨account,client,token,client',haccount,hclient,rfl,hdelegate,htoken,hcases⟩ :=
        refreshAnswered_cases h
      have hsame : account.accessToken = client.accessToken :=
        hagree identifier account client haccount hclient
      rw [KeepsAgreement,atClient_iff haccount hclient]
      rcases hcases with ⟨hstore,rfl⟩ | ⟨hown,rfl⟩
      · rw [everywhere_setAccount hagree identifier rfl]
        dsimp only [Agree]
        rw [htoken,hsame]
        constructor
        · intro hnew token' hnewToken _
          obtain rfl := Option.some.inj hnewToken
          exact hnew.symm
        · intro hkeeps
          exact (hkeeps token rfl hstore).symm
      · refine iff_of_true ((everywhere_setAccount hagree identifier rfl).mpr rfl) ?_
        intro token' _ hstore
        exact absurd (hown.symm.trans hstore) (by decide)
    | refreshFailed identifier error =>
      obtain ⟨account,client,client',haccount,hclient,hdelegate,htoken,hcases⟩ :=
        refreshFailed_cases h
      have hsame : account.accessToken = client.accessToken :=
        hagree identifier account client haccount hclient
      rw [KeepsAgreement,atClient_iff haccount hclient]
      rcases hcases with ⟨hretries,rfl⟩ | ⟨hretries,_,⟨herror,_,rfl⟩ | ⟨hnot,rfl⟩⟩
      · refine iff_of_true ((everywhere_setAccount hagree identifier rfl).mpr ?_)
          fun hfalse => absurd (hretries.symm.trans hfalse) (by decide)
        exact hsame.trans htoken.symm
      · exact iff_of_true (everywhere_removeAccount hagree) fun _ => Or.inr herror
      · rw [everywhere_setAccount hagree identifier rfl]
        dsimp only [Agree]
        rw [htoken]
        constructor
        · intro hnone _
          exact Or.inl hnone.symm
        · intro hor
          rcases hor hretries with hnone | herror
          · exact hnone.symm
          · by_contra hsome
            exact hnot ⟨herror,fun hnone => hsome hnone.symm⟩
    | tokenRejected identifier =>
      obtain ⟨account,client,haccount,hclient,hcases⟩ := tokenRejected_cases h
      have hsame : account.accessToken = client.accessToken :=
        hagree identifier account client haccount hclient
      have htold := hs.told identifier account client haccount hclient
      rw [KeepsAgreement,atClient_iff haccount hclient]
      rcases hcases with ⟨hnone,rfl⟩ | ⟨hsome,hstore,rfl⟩ | ⟨_,hown,rfl⟩
      · refine iff_of_true ((everywhere_setAccount hagree identifier rfl).mpr hsame) ?_
        cases hdelegate : client.delegate with
        | account => rfl
        | store =>
          rw [hdelegate] at htold
          exact absurd (hsame.trans hnone) htold
      · rw [everywhere_setAccount hagree identifier rfl,hstore]
        refine iff_of_false (fun hlost => hsome ?_) (by decide)
        exact hsame.symm.trans hlost
      · exact iff_of_true (everywhere_removeAccount hagree) hown
    | _ => exact absurd he id
  · obtain ⟨hquiet,_⟩ := quiet_step he hs.pending h
    refine iff_of_true (everywhere_quiet (fun _ _ => rfl) (fun _ => rfl) hagree hquiet) ?_
    cases e with
    | refreshAnswered identifier newToken => exact absurd trivial he
    | refreshFailed identifier error => exact absurd trivial he
    | tokenRejected identifier => exact absurd trivial he
    | _ => trivial

/-- Every account has the token that its client sends, in every state of a run of launches,
logins, refreshes and removals, exactly if no client that made an account by its login gets
another token or loses the one it has, and no refresh fails for good and leaves the client its
token. -/
theorem tokens_agree_iff (keychain : Dictionary Text ArchivedAccount) {es : List Event}
    (hrun : run step (init keychain) es = .ok s) :
    Always step (fun s => s.Everywhere Agree) (init keychain) es ↔
      Along step KeepsAgreement (init keychain) es :=
  always_iff_along_of_always sound_step agree_step (sound_init keychain)
    (everywhere_init keychain) hrun

def savedAccount : Dictionary Text ArchivedAccount :=
  AList.singleton "7D4F".toList ⟨"Instagram".toList,some ⟨"token".toList,some "refresh".toList⟩,
    none⟩

def offlineRefresh : List Event :=
  [.setConfiguration instagramConfiguration "Instagram".toList,
    .refreshAccessToken "7D4F".toList,.refreshFailed "7D4F".toList .noResponse]

/-- Without a connection the account forgets the token that its client goes on to send. -/
theorem tokens_agree_iff_offline :
    ¬Always step (fun s => s.Everywhere Agree) (init savedAccount) offlineRefresh := by
  rw [tokens_agree_iff savedAccount rfl]
  rintro ⟨_,h⟩
  have hfailed := ((h _ rfl).2 _ rfl).1
  rcases hfailed _ _ rfl rfl rfl with hnone | herror
  · exact absurd hnone (by decide)
  · exact absurd herror (by decide)

end NXOAuth2AccountStore
end OAuth2
end CourseraObjC
