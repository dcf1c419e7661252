import CourseraObjC.AccountTokens

/-! What the keychain has of the accounts, and so what the next launch finds. -/
namespace CourseraObjC
namespace OAuth2
namespace NXOAuth2AccountStore

open Runs QueryParameters

/-- An account and what there is of it in the keychain: all but a token that was forgotten. -/
def Kept : Option NXOAuth2Account → Option ArchivedAccount → Prop
  | none,none => True
  | some account,some archived => archived.accountType = account.accountType ∧
    archived.userData = account.userData ∧
    (account.accessToken ≠ none → archived.accessToken = account.accessToken)
  | _,_ => False

def Saved (s : NXOAuth2AccountStore) : Prop :=
  ∀ i, Kept (s.accountsDict.lookup i) (s.keychain.lookup i)

variable {s t : NXOAuth2AccountStore} {identifier : Text}

theorem kept_encoded (account : Option NXOAuth2Account) :
    Kept account (account.map NXOAuth2Account.encodeWithCoder) := by
  cases account with
  | none => trivial
  | some a => exact ⟨rfl,rfl,fun _ => rfl⟩

theorem Stored.saved (h : s.Stored) : s.Saved := by
  intro i
  rw [h i]
  exact kept_encoded (s.accountsDict.lookup i)

theorem Saved.same (hs : s.Saved) (h : SameAccounts s t) : t.Saved := by
  intro i
  rw [h.accounts,h.keychain]
  exact hs i

theorem Stored.same (hs : s.Stored) (h : SameAccounts s t) : t.Stored := by
  intro i
  rw [h.accounts,h.keychain]
  exact hs i

/-- An account that is not stored again may get another client, and may forget its token. -/
theorem Saved.setAccount {old account : NXOAuth2Account} (hs : s.Saved)
    (hold : s.accountsDict.lookup identifier = some old)
    (htype : account.accountType = old.accountType) (hdata : account.userData = old.userData)
    (htoken : account.accessToken ≠ none → account.accessToken = old.accessToken) :
    (s.setAccount identifier account).Saved := by
  intro i
  rw [lookup_setAccount,keychain_setAccount]
  split_ifs with hi
  · subst hi
    have hkept := hs i
    rw [hold] at hkept
    cases hkeychain : s.keychain.lookup i with
    | none =>
      rw [hkeychain] at hkept
      exact hkept
    | some archived =>
      rw [hkeychain] at hkept
      obtain ⟨htype',hdata',htoken'⟩ := hkept
      refine ⟨htype'.trans htype.symm,hdata'.trans hdata.symm,fun hsome => ?_⟩
      have hsame := htoken hsome
      rw [hsame] at hsome ⊢
      exact htoken' hsome
  · exact hs i

theorem Stored.setAccount_iff {old account : NXOAuth2Account} (hs : s.Stored)
    (hold : s.accountsDict.lookup identifier = some old) :
    (s.setAccount identifier account).Stored ↔
      account.encodeWithCoder = old.encodeWithCoder := by
  have holds := hs identifier
  rw [hold,Option.map_some] at holds
  constructor
  · intro h
    have hnew := h identifier
    rw [lookup_setAccount_self,keychain_setAccount,holds,Option.map_some] at hnew
    exact (Option.some.inj hnew).symm
  · intro h i
    rw [lookup_setAccount,keychain_setAccount]
    split_ifs with hi
    · subst hi
      rw [holds,Option.map_some,h]
    · exact hs i

theorem saved_quiet (hs : s.Saved) (h : Quiet s t) : t.Saved := by
  cases h with
  | same h => exact hs.same h
  | loggedIn identifier account client hnew hclient hdelegate htoken hsome h =>
    exact stored_addAccount.saved.same h
  | used identifier account client client' haccount hclient hdelegate htoken h =>
    rw [h]
    exact hs.setAccount haccount rfl rfl fun _ => rfl
  | userData identifier account data haccount h =>
    rw [h]
    exact stored_addAccount.saved
  | removed identifier h =>
    rw [h]
    exact stored_removeAccount.saved
  | relaunched h =>
    rw [h]
    exact (stored_init s.keychain).saved

theorem stored_quiet (hs : s.Stored) (h : Quiet s t) : t.Stored := by
  cases h with
  | same h => exact hs.same h
  | loggedIn identifier account client hnew hclient hdelegate htoken hsome h =>
    exact stored_addAccount.same h
  | used identifier account client client' haccount hclient hdelegate htoken h =>
    rw [h]
    exact (hs.setAccount_iff haccount).mpr rfl
  | userData identifier account data haccount h =>
    rw [h]
    exact stored_addAccount
  | removed identifier h =>
    rw [h]
    exact stored_removeAccount
  | relaunched h =>
    rw [h]
    exact stored_init s.keychain

theorem saved_step (e : Event) (s t : NXOAuth2AccountStore) (hs : s.Sound ∧ s.Saved)
    (h : s.step e = .ok t) : t.Sound ∧ t.Saved := by
  obtain ⟨hsound,hsaved⟩ := hs
  refine ⟨sound_step e s t hsound h,?_⟩
  by_cases he : AboutToken e
  · cases e with
    | refreshAnswered identifier newToken =>
      obtain ⟨account,client,token,client',haccount,_,_,_,_,hcases⟩ := refreshAnswered_cases h
      rcases hcases with ⟨_,rfl⟩ | ⟨_,rfl⟩
      · exact hsaved.setAccount haccount rfl rfl fun _ => rfl
      · exact stored_addAccount.saved
    | refreshFailed identifier error =>
      obtain ⟨account,client,client',haccount,_,_,_,hcases⟩ := refreshFailed_cases h
      rcases hcases with ⟨_,rfl⟩ | ⟨_,_,⟨_,_,rfl⟩ | ⟨_,rfl⟩⟩
      · exact hsaved.setAccount haccount rfl rfl fun _ => rfl
      · exact stored_removeAccount.saved
      · exact hsaved.setAccount haccount rfl rfl fun hnone => absurd rfl hnone
    | tokenRejected identifier =>
      obtain ⟨account,client,haccount,_,hcases⟩ := tokenRejected_cases h
      rcases hcases with ⟨_,rfl⟩ | ⟨_,_,rfl⟩ | ⟨_,_,rfl⟩
      · exact hsaved.setAccount haccount rfl rfl fun _ => rfl
      · exact hsaved.setAccount haccount rfl rfl fun _ => rfl
      · exact stored_removeAccount.saved
    | _ => exact absurd he id
  · exact saved_quiet hsaved (quiet_step he hsound.pending h).1

def Restores : Option NXOAuth2Account → Option NXOAuth2Account → Prop
  | none,none => True
  | some before,some after => after.accountType = before.accountType ∧
    after.userData = before.userData ∧
    (before.accessToken ≠ none → after.accessToken = before.accessToken)
  | _,_ => False

/-- A launch finds the accounts that there were when the program was left, whenever this is,
each with its type, its data and the token it had. -/
theorem launch_restores_accounts (keychain : Dictionary Text ArchivedAccount) {es : List Event}
    (hrun : run step (init keychain) es = .ok s) :
    ∃ t, s.step .relaunch = .ok t ∧
      ∀ i, Restores (s.accountsDict.lookup i) (t.accountsDict.lookup i) := by
  refine ⟨init s.keychain,rfl,fun i => ?_⟩
  have hsaved := (run_invariant saved_step
    ⟨sound_init keychain,(stored_init keychain).saved⟩ hrun).2 i
  rw [init,Dictionary.lookup_mapValues]
  cases haccount : s.accountsDict.lookup i with
  | none =>
    rw [haccount] at hsaved
    cases hkeychain : s.keychain.lookup i with
    | none => trivial
    | some archived =>
      rw [hkeychain] at hsaved
      exact hsaved
  | some account =>
    rw [haccount] at hsaved
    cases hkeychain : s.keychain.lookup i with
    | none =>
      rw [hkeychain] at hsaved
      exact hsaved
    | some archived =>
      rw [hkeychain] at hsaved
      exact hsaved

theorem launch_restores_accounts_offline :
    ∃ s t, run step (init savedAccount) offlineRefresh = .ok s ∧ s.step .relaunch = .ok t ∧
      ∀ i, Restores (s.accountsDict.lookup i) (t.accountsDict.lookup i) := by
  obtain ⟨t,ht,hrestores⟩ := launch_restores_accounts savedAccount
    (show run step (init savedAccount) offlineRefresh = .ok _ from rfl)
  exact ⟨_,t,rfl,ht,hrestores⟩

/-- An event that takes no token from an account which the keychain goes on to have. -/
def ForgetsNothing (s : NXOAuth2AccountStore) : Event → Prop
  | .refreshFailed identifier error => s.AtClient identifier fun account client =>
    client.retries error = false →
      (error = .http 401 ∧ client.accessToken ≠ none) ∨ account.accessToken = none
  | _ => True

theorem stored_step (e : Event) (s t : NXOAuth2AccountStore) (hs : s.Sound) (hstored : s.Stored)
    (h : s.step e = .ok t) : t.Stored ↔ s.ForgetsNothing e := by
  by_cases he : AboutToken e
  · cases e with
    | refreshAnswered identifier newToken =>
      obtain ⟨account,client,token,client',haccount,_,_,_,_,hcases⟩ := refreshAnswered_cases h
      rcases hcases with ⟨_,rfl⟩ | ⟨_,rfl⟩
      · exact iff_of_true ((hstored.setAccount_iff haccount).mpr rfl) trivial
      · exact iff_of_true stored_addAccount trivial
    | refreshFailed identifier error =>
      obtain ⟨account,client,client',haccount,hclient,_,_,hcases⟩ := refreshFailed_cases h
      rw [ForgetsNothing,atClient_iff haccount hclient]
      rcases hcases with ⟨hretries,rfl⟩ | ⟨hretries,_,⟨herror,hsome,rfl⟩ | ⟨hnot,rfl⟩⟩
      · exact iff_of_true ((hstored.setAccount_iff haccount).mpr rfl)
          fun hfalse => absurd (hretries.symm.trans hfalse) (by decide)
      · exact iff_of_true stored_removeAccount fun _ => Or.inl ⟨herror,hsome⟩
      · rw [hstored.setAccount_iff haccount]
        constructor
        · intro hsame _
          have htoken := congrArg ArchivedAccount.accessToken hsame
          exact Or.inr htoken.symm
        · intro hor
          rcases hor hretries with hboth | hnone
          · exact absurd hboth hnot
          · rw [NXOAuth2Account.encodeWithCoder,NXOAuth2Account.encodeWithCoder,hnone]
    | tokenRejected identifier =>
      obtain ⟨account,client,haccount,_,hcases⟩ := tokenRejected_cases h
      rcases hcases with ⟨_,rfl⟩ | ⟨_,_,rfl⟩ | ⟨_,_,rfl⟩
      · exact iff_of_true ((hstored.setAccount_iff haccount).mpr rfl) trivial
      · exact iff_of_true ((hstored.setAccount_iff haccount).mpr rfl) trivial
      · exact iff_of_true stored_removeAccount trivial
    | _ => exact absurd he id
  · refine iff_of_true (stored_quiet hstored (quiet_step he hs.pending h).1) ?_
    cases e with
    | refreshFailed identifier error => exact absurd trivial he
    | _ => trivial

/-- The keychain has every account as it is, in every state of a run, exactly if no refresh
fails for good and leaves an account that had a token in the store without it. -/
theorem keychain_follows_accounts_iff (keychain : Dictionary Text ArchivedAccount)
    {es : List Event} (hrun : run step (init keychain) es = .ok s) :
    Always step Stored (init keychain) es ↔ Along step ForgetsNothing (init keychain) es :=
  always_iff_along_of_always sound_step stored_step (sound_init keychain) (stored_init keychain)
    hrun

theorem keychain_follows_accounts_iff_offline :
    ¬Always step Stored (init savedAccount) offlineRefresh := by
  rw [keychain_follows_accounts_iff savedAccount rfl]
  rintro ⟨_,h⟩
  have hfailed := ((h _ rfl).2 _ rfl).1
  rcases hfailed _ _ rfl rfl rfl with ⟨herror,_⟩ | hnone
  · exact absurd herror (by decide)
  · exact absurd hnone (by decide)

end NXOAuth2AccountStore
end OAuth2
end CourseraObjC
