import CourseraObjC.AccountStore

/-! Which login a redirect belongs to. The store goes by the redirect URLs that the address
begins with, through sets whose members it meets in any order. -/
namespace CourseraObjC
namespace OAuth2
namespace NXOAuth2AccountStore

open QueryParameters

def Asks (s : NXOAuth2AccountStore) (accountType : Text) : Prop :=
  ∃ client, s.pendingOAuthClients.lookup accountType = some client ∧
    client.authConnection = some .tokenRequest

/-- Whatever the first type is, it finds a code in the address with its own redirect URL. -/
def BringsCode (s : NXOAuth2AccountStore) (url : Text) : Prop :=
  ∀ accountType configuration, accountType ∈ s.redirectTypes url →
    s.configurations.lookup accountType = some configuration →
    ∃ code, valueForQueryParameterKey (fixed url configuration.redirectURL) "code".toList =
      .ok (some code)

def Idle (s : NXOAuth2AccountStore) (url : Text) : Prop :=
  ∀ accountType client, accountType ∈ s.redirectTypes url →
    s.pendingOAuthClients.lookup accountType = some client → client.authConnection = none

variable {s t : NXOAuth2AccountStore} {url accountType : Text}

theorem mem_redirectTypes :
    accountType ∈ s.redirectTypes url ↔ ∃ configuration,
      s.configurations.lookup accountType = some configuration ∧
        (lowercaseString configuration.redirectURL).isPrefixOf (lowercaseString url) = true := by
  rw [redirectTypes,List.mem_filter,matchesRedirect]
  cases hconfiguration : s.configurations.lookup accountType with
  | none => simp
  | some configuration =>
    have hmem : accountType ∈ s.configurations.keys := by
      rw [← AList.mem_keys,← AList.lookup_isSome,hconfiguration]
      rfl
    simp [hmem]

theorem nodup_redirectTypes : (s.redirectTypes url).Nodup :=
  List.Nodup.filter _ s.configurations.keys_nodup

theorem fixedRedirectURL_of_mem {enumerated : List Text}
    (henumerated : enumerated.Perm s.configurations.keys)
    (hmem : accountType ∈ s.redirectTypes url) :
    ∃ first configuration, first ∈ s.redirectTypes url ∧
      s.configurations.lookup first = some configuration ∧
      s.fixedRedirectURL url enumerated = some (fixed url configuration.redirectURL) := by
  obtain ⟨hkey,hmatch⟩ := List.mem_filter.mp hmem
  rw [fixedRedirectURL]
  cases hfind : enumerated.find? (s.matchesRedirect url) with
  | none =>
    have hnot := List.find?_eq_none.mp hfind accountType (henumerated.mem_iff.mpr hkey)
    exact absurd hmatch hnot
  | some first =>
    have hfirst : first ∈ s.redirectTypes url := by
      refine List.mem_filter.mpr ⟨?_,List.find?_some hfind⟩
      exact henumerated.mem_iff.mp (List.mem_of_find?_eq_some hfind)
    obtain ⟨configuration,hconfiguration,_⟩ := mem_redirectTypes.mp hfirst
    exact ⟨first,configuration,hfirst,hconfiguration,by simp [hconfiguration]⟩

theorem idle_client {configuration : Configuration}
    (hconfiguration : s.configurations.lookup accountType = some configuration)
    (hidle : ∀ client, s.pendingOAuthClients.lookup accountType = some client →
      client.authConnection = none) :
    ∃ t client, s.pendingOAuthClientForAccountType accountType = .ok (t,client) ∧
      client.authConnection = none ∧ ∀ other, other ≠ accountType →
        t.pendingOAuthClients.lookup other = s.pendingOAuthClients.lookup other := by
  rw [pendingOAuthClientForAccountType]
  cases hpending : s.pendingOAuthClients.lookup accountType with
  | some client => exact ⟨s,client,rfl,hidle client hpending,fun _ _ => rfl⟩
  | none =>
    simp only [hconfiguration]
    exact ⟨_,_,rfl,rfl,fun other hne => AList.lookup_insert_ne hne⟩

theorem openFirst_of_code (members : List Text) {fixedURL code : Text}
    {configuration : Configuration}
    (hconfiguration : s.configurations.lookup accountType = some configuration)
    (hcode : valueForQueryParameterKey fixedURL "code".toList = .ok (some code))
    (hidle : ∀ client, s.pendingOAuthClients.lookup accountType = some client →
      client.authConnection = none) :
    ∃ t, openFirst fixedURL (accountType::members) s = .ok t ∧ t.Asks accountType ∧
      ∀ other, other ≠ accountType →
        t.pendingOAuthClients.lookup other = s.pendingOAuthClients.lookup other := by
  obtain ⟨s',client,hclient,hnone,hothers⟩ := idle_client hconfiguration hidle
  have hopened : openFirst fixedURL (accountType::members) s = .ok {s' with
      pendingOAuthClients := s'.pendingOAuthClients.insert accountType
        {client with authConnection := some .tokenRequest}} := by
    rw [openFirst,hclient]
    simp [bind,Except.bind,openRedirectURL_of_code hnone hcode,pure,Except.pure]
  refine ⟨_,hopened,⟨_,AList.lookup_insert _,rfl⟩,fun other hne => ?_⟩
  rw [← hothers other hne]
  exact AList.lookup_insert_ne hne

/-- One redirect, in one order of the sets: the first type that fits asks for the token, and it
alone. -/
theorem handleRedirectURL_first {first : Text} {enumerated members : List Text}
    (hcode : s.BringsCode url) (hidle : s.Idle url)
    (henumerated : enumerated.Perm s.configurations.keys)
    (hmembers : (first::members).Perm (s.redirectTypes url)) :
    ∃ t, s.handleRedirectURL url enumerated (first::members) = .ok t ∧
      ∀ other ∈ s.redirectTypes url, t.Asks other ↔ other = first := by
  have hfirst : first ∈ s.redirectTypes url := hmembers.mem_iff.mp (by simp)
  obtain ⟨speller,spelling,hspeller,hspelling,hfixed⟩ :=
    fixedRedirectURL_of_mem henumerated hfirst
  obtain ⟨configuration,hconfiguration,_⟩ := mem_redirectTypes.mp hfirst
  obtain ⟨code,hvalue⟩ := hcode speller spelling hspeller hspelling
  obtain ⟨t,hopened,hasks,hothers⟩ := openFirst_of_code members hconfiguration
    hvalue fun client hclient => hidle first client hfirst hclient
  refine ⟨t,?_,fun other hother => ⟨fun hasksOther => ?_,fun heq => heq ▸ hasks⟩⟩
  · rw [handleRedirectURL,if_pos (by simp [List.isPerm_iff.mpr henumerated,
      List.isPerm_iff.mpr hmembers]),hfixed]
    exact hopened
  · by_contra hne
    obtain ⟨client,hclient,hrunning⟩ := hasksOther
    rw [hothers other hne] at hclient
    rw [hidle other client hother hclient] at hrunning
    exact absurd hrunning (by simp)

theorem eq_singleton {types : List Text} (hnd : types.Nodup) (hmem : accountType ∈ types)
    (hall : ∀ other ∈ types, other = accountType) : types = [accountType] := by
  have hcount := List.eq_replicate_of_mem hall
  have hle : types.length ≤ 1 := by
    rw [hcount,List.nodup_replicate] at hnd
    exact hnd
  have hpos : 0 < types.length := List.length_pos_of_mem hmem
  have hlength : types.length = 1 := by omega
  rw [hlength] at hcount
  exact hcount

/-- A redirect with a code makes the client of a type ask for its token, in whatever order the
sets are gone through, exactly if there is no other type whose redirect URL the address begins
with. Each such type gets the code, and gets it alone, in some order of the set. -/
theorem redirect_reaches_iff (hcode : s.BringsCode url) (hidle : s.Idle url)
    (hmem : accountType ∈ s.redirectTypes url) :
    ((∀ enumerated members, enumerated.Perm s.configurations.keys →
        members.Perm (s.redirectTypes url) →
        ∃ t, s.handleRedirectURL url enumerated members = .ok t ∧ t.Asks accountType) ↔
        s.redirectTypes url = [accountType]) ∧
      ∀ other ∈ s.redirectTypes url, ∃ members, members.Perm (s.redirectTypes url) ∧
        ∀ enumerated, enumerated.Perm s.configurations.keys →
          ∃ t, s.handleRedirectURL url enumerated members = .ok t ∧
            ∀ type ∈ s.redirectTypes url, t.Asks type ↔ type = other := by
  have hfirst : ∀ other ∈ s.redirectTypes url, ∃ members, members.Perm (s.redirectTypes url) ∧
      ∀ enumerated, enumerated.Perm s.configurations.keys →
        ∃ t, s.handleRedirectURL url enumerated members = .ok t ∧
          ∀ type ∈ s.redirectTypes url, t.Asks type ↔ type = other := by
    intro other hother
    have hperm := (List.perm_cons_erase hother).symm
    exact ⟨_,hperm,fun _ henumerated => handleRedirectURL_first hcode hidle henumerated hperm⟩
  refine ⟨⟨fun h => ?_,fun hone enumerated members henumerated hmembers => ?_⟩,hfirst⟩
  · apply eq_singleton nodup_redirectTypes hmem
    intro other hother
    obtain ⟨members,hperm,hothers⟩ := hfirst other hother
    obtain ⟨t,ht,hasks⟩ := h s.configurations.keys members (.refl _) hperm
    obtain ⟨u,hu,hexactly⟩ := hothers s.configurations.keys (.refl _)
    obtain rfl := Except.ok.inj (ht.symm.trans hu)
    exact ((hexactly accountType hmem).mp hasks).symm
  · have hsingle : members = [accountType] := by
      rw [hone] at hmembers
      exact List.perm_singleton.mp hmembers
    rw [hsingle] at hmembers ⊢
    obtain ⟨t,ht,hexactly⟩ := handleRedirectURL_first hcode hidle henumerated hmembers
    exact ⟨t,ht,(hexactly accountType hmem).mpr rfl⟩

def twoTypes : NXOAuth2AccountStore :=
  let instagram := (∅ : Dictionary Text Configuration).insert "Instagram".toList
    instagramConfiguration
  {init ∅ with configurations := instagram.insert "Archive".toList instagramConfiguration}

def answeredURL : Text :=
  urlByAddingParameters outgoingRedirect ((∅ : Parameters).insert "code".toList "abc".toList)

theorem redirect_reaches_iff_twoTypes :
    (¬∀ enumerated members, enumerated.Perm twoTypes.configurations.keys →
        members.Perm (twoTypes.redirectTypes answeredURL) →
        ∃ t, twoTypes.handleRedirectURL answeredURL enumerated members = .ok t ∧
          t.Asks "Instagram".toList) ∧
      ∃ members, members.Perm (twoTypes.redirectTypes answeredURL) ∧
        ∀ enumerated, enumerated.Perm twoTypes.configurations.keys →
          ∃ t, twoTypes.handleRedirectURL answeredURL enumerated members = .ok t ∧
            ∀ type ∈ twoTypes.redirectTypes answeredURL, t.Asks type ↔ type = "Archive".toList := by
  have hvalue : valueForQueryParameterKey answeredURL "code".toList =
      .ok (some "abc".toList) := by
    rw [answeredURL,value_after_adding (by decide),AList.lookup_insert,
      valueForQueryParameterKey_of_none (afterMark_none (by decide))]
    rfl
  have hcode : twoTypes.BringsCode answeredURL := by
    intro accountType configuration hmem hconfiguration
    have hsame : configuration = instagramConfiguration := by
      rw [twoTypes] at hconfiguration
      dsimp only at hconfiguration
      by_cases harchive : accountType = "Archive".toList
      · rw [harchive,AList.lookup_insert] at hconfiguration
        exact (Option.some.inj hconfiguration).symm
      · rw [AList.lookup_insert_ne harchive] at hconfiguration
        by_cases hinstagram : accountType = "Instagram".toList
        · rw [hinstagram,AList.lookup_insert] at hconfiguration
          exact (Option.some.inj hconfiguration).symm
        · rw [AList.lookup_insert_ne hinstagram] at hconfiguration
          exact absurd hconfiguration (by simp)
    rw [hsame]
    exact ⟨_,hvalue⟩
  have hidle : twoTypes.Idle answeredURL := by
    intro accountType client _ hclient
    have hnone : twoTypes.pendingOAuthClients = ∅ := rfl
    rw [hnone,AList.lookup_empty] at hclient
    exact absurd hclient (by simp)
  have hmem : "Instagram".toList ∈ twoTypes.redirectTypes answeredURL := by decide
  obtain ⟨hreaches,hothers⟩ := redirect_reaches_iff hcode hidle hmem
  refine ⟨fun hall => ?_,hothers "Archive".toList (by decide)⟩
  exact absurd (hreaches.mp hall) (by decide)

end NXOAuth2AccountStore
end OAuth2
end CourseraObjC
