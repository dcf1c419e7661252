import CourseraObjC.QueryParameters
import CourseraObjC.Runs

/-! A login by way of the browser, as an OAuth client sees it: it opens the address of the
authorization page, is sent back to its redirect URL, and asks for a token with the code that
it finds there. -/
namespace CourseraObjC
namespace OAuth2

open QueryParameters

/-- Keys that the flows set, which additional parameters must not have. -/
def forbiddenKeys : List Text :=
  ["grant_type".toList,"client_id".toList,"client_secret".toList,"username".toList,
    "password".toList,"redirect_uri".toList,"code".toList,"assertion_type".toList,
    "assertion".toList]

structure AdditionalParameters where
  parameters : Parameters
  permitted : ∀ key ∈ forbiddenKeys, parameters.lookup key = none

structure NXOAuth2AccessToken where
  accessToken : Text
  refreshToken : Option Text
  deriving DecidableEq

def NXOAuth2AccessToken.restoreWithOldToken (token : NXOAuth2AccessToken)
    (oldToken : Option NXOAuth2AccessToken) : NXOAuth2AccessToken :=
  if token.refreshToken = none then
    { token with refreshToken := oldToken.bind NXOAuth2AccessToken.refreshToken }
  else token

inductive Context
  | tokenRequest
  | tokenRefresh
  deriving DecidableEq

inductive Delegate
  | store
  | account
  deriving DecidableEq

/-- The members of a scope are listed as `allObjects` has them. -/
structure NXOAuth2Client where
  clientId : Text
  clientSecret : Text
  authorizeURL : Text
  tokenURL : Text
  desiredScope : Option (List Text)
  additionalAuthenticationParameters : Option AdditionalParameters
  delegate : Delegate
  accessToken : Option NXOAuth2AccessToken
  authConnection : Option Context
  refreshConnectionDidRetryCount : ℕ
  refreshScheduled : ℕ

inductive NXOAuth2ErrorCode
  | invalidRequest
  | invalidClient
  | unauthorizedClient
  | redirectURIMismatch
  | accessDenied
  | unsupportedResponseType
  | invalidScope
  deriving DecidableEq

def lowercaseString (s : Text) : Text := s.map Char.toLower

def errorCode (errorString : Text) : Option NXOAuth2ErrorCode :=
  if lowercaseString errorString = "invalid_request".toList then some .invalidRequest
  else if lowercaseString errorString = "invalid_client".toList then some .invalidClient
  else if lowercaseString errorString = "unauthorized_client".toList then some .unauthorizedClient
  else if lowercaseString errorString = "redirect_uri_mismatch".toList then
    some .redirectURIMismatch
  else if lowercaseString errorString = "access_denied".toList then some .accessDenied
  else if lowercaseString errorString = "unsupported_response_type".toList then
    some .unsupportedResponseType
  else if lowercaseString errorString = "invalid_scope".toList then some .invalidScope
  else none

/-- What a redirect raises: an assertion of the client, or what a dictionary does. -/
inductive RedirectException
  | authConnectionAlreadyRunning
  | dictionary (exception : DictionaryException)
  deriving DecidableEq

def joinedScope (scope : List Text) : Text := [' '].intercalate scope

namespace NXOAuth2Client

def addEntries (client : NXOAuth2Client) (parameters : Parameters) : Parameters :=
  match client.additionalAuthenticationParameters with
  | some additional => additional.parameters ∪ parameters
  | none => parameters

def ownAuthorizationParameters (client : NXOAuth2Client) (redirectURL : Text) : Parameters :=
  let parameters := (∅ : Parameters).insert "response_type".toList "code".toList
  let parameters := parameters.insert "client_id".toList client.clientId
  parameters.insert "redirect_uri".toList redirectURL

def authorizationParameters (client : NXOAuth2Client) (redirectURL : Text) : Parameters :=
  let parameters := client.addEntries (client.ownAuthorizationParameters redirectURL)
  match client.desiredScope with
  | some (s::scope) => parameters.insert "scope".toList (joinedScope (s::scope))
  | _ => parameters

def authorizationURLWithRedirectURL (client : NXOAuth2Client) (redirectURL : Text) : Text :=
  urlByAddingParameters client.authorizeURL (client.authorizationParameters redirectURL)

def ownTokenParameters (client : NXOAuth2Client) (authGrant redirectURL : Text) : Parameters :=
  let parameters := (∅ : Parameters).insert "grant_type".toList "authorization_code".toList
  let parameters := parameters.insert "client_id".toList client.clientId
  let parameters := parameters.insert "client_secret".toList client.clientSecret
  let parameters := parameters.insert "redirect_uri".toList redirectURL
  parameters.insert "code".toList authGrant

def tokenParameters (client : NXOAuth2Client) (authGrant redirectURL : Text) : Parameters :=
  let parameters := client.ownTokenParameters authGrant redirectURL
  match client.desiredScope with
  | some scope => client.addEntries (parameters.insert "scope".toList (joinedScope scope))
  | none => client.addEntries parameters

def requestTokenWithAuthGrant (client : NXOAuth2Client) (authGrant redirectURL : Text) :
    Except RedirectException Parameters :=
  if client.authConnection.isSome then .error .authConnectionAlreadyRunning
  else .ok (client.tokenParameters authGrant redirectURL)

end NXOAuth2Client

/-- What a client does about a redirect: the first is its only success. -/
inductive Opened
  | requestToken (parameters : Parameters)
  | didFail (error : NXOAuth2ErrorCode)
  | ignored

def NXOAuth2Client.openRedirectURL (client : NXOAuth2Client) (url : Text) :
    Except RedirectException Opened := do
  match ← (valueForQueryParameterKey url "code".toList).mapError .dictionary with
  | some accessGrant =>
    let parameters ← client.requestTokenWithAuthGrant accessGrant (urlStringWithoutQueryString url)
    return .requestToken parameters
  | none =>
    match ← (valueForQueryParameterKey url "error".toList).mapError .dictionary with
    | some errorString =>
      match errorCode errorString with
      | some error => return .didFail error
      | none => return .ignored
    | none => return .ignored

/-- A URL whose query, if it has one, is read without an exception. -/
def Readable (url : Text) : Prop :=
  ∀ key, ∃ value, valueForQueryParameterKey url key = .ok value

variable {client : NXOAuth2Client} {redirectURL : Text} {key : Text}

theorem lookup_addEntries (h : key ∈ forbiddenKeys) (parameters : Parameters) :
    (client.addEntries parameters).lookup key = parameters.lookup key := by
  rw [NXOAuth2Client.addEntries]
  cases client.additionalAuthenticationParameters with
  | none => rfl
  | some additional =>
    have hnone := additional.permitted key h
    exact AList.lookup_union_right (AList.lookup_eq_none.mp hnone)

/-- What a flow sets itself is neither overridden by additional parameters nor by the scope. -/
theorem lookup_authorizationParameters (h : key ∈ forbiddenKeys) :
    (client.authorizationParameters redirectURL).lookup key =
      (client.ownAuthorizationParameters redirectURL).lookup key := by
  have hscope : key ≠ "scope".toList := by
    rintro rfl
    exact absurd h (by decide)
  rw [NXOAuth2Client.authorizationParameters]
  split
  · rw [AList.lookup_insert_ne hscope,lookup_addEntries h]
  · rw [lookup_addEntries h]

theorem lookup_tokenParameters {authGrant : Text} (h : key ∈ forbiddenKeys) :
    (client.tokenParameters authGrant redirectURL).lookup key =
      (client.ownTokenParameters authGrant redirectURL).lookup key := by
  have hscope : key ≠ "scope".toList := by
    rintro rfl
    exact absurd h (by decide)
  rw [NXOAuth2Client.tokenParameters]
  split
  · rw [lookup_addEntries h,AList.lookup_insert_ne hscope]
  · rw [lookup_addEntries h]

theorem authorization_names (client : NXOAuth2Client) (redirectURL : Text) :
    (client.authorizationParameters redirectURL).lookup "redirect_uri".toList =
        some redirectURL ∧
      (client.authorizationParameters redirectURL).lookup "client_id".toList =
        some client.clientId := by
  rw [lookup_authorizationParameters (by decide),lookup_authorizationParameters (by decide),
    NXOAuth2Client.ownAuthorizationParameters]
  have hne : "client_id".toList ≠ "redirect_uri".toList := by decide
  exact ⟨AList.lookup_insert _,by rw [AList.lookup_insert_ne hne,AList.lookup_insert]⟩

theorem token_request_names (client : NXOAuth2Client) (authGrant redirectURL : Text) :
    (client.tokenParameters authGrant redirectURL).lookup "redirect_uri".toList =
        some redirectURL ∧
      (client.tokenParameters authGrant redirectURL).lookup "client_id".toList =
        some client.clientId ∧
      (client.tokenParameters authGrant redirectURL).lookup "code".toList =
        some authGrant := by
  rw [lookup_tokenParameters (by decide),lookup_tokenParameters (by decide),
    lookup_tokenParameters (by decide),NXOAuth2Client.ownTokenParameters]
  have hredirect : "redirect_uri".toList ≠ "code".toList := by decide
  have hcode : "client_id".toList ≠ "code".toList := by decide
  have hid : "client_id".toList ≠ "redirect_uri".toList := by decide
  have hsecret : "client_id".toList ≠ "client_secret".toList := by decide
  refine ⟨?_,?_,AList.lookup_insert _⟩
  · rw [AList.lookup_insert_ne hredirect,AList.lookup_insert]
  · rw [AList.lookup_insert_ne hcode,AList.lookup_insert_ne hid,AList.lookup_insert_ne hsecret,
      AList.lookup_insert]

theorem urlStringWithoutQueryString_adding {parameters : Parameters}
    (hne : parameters.entries ≠ []) (url : Text) :
    urlStringWithoutQueryString (urlByAddingParameters url parameters) =
      urlStringWithoutQueryString url := by
  rw [urlByAddingParameters,urlStringWithoutQueryString,urlStringWithoutQueryString,
    if_neg (by simpa using hne)]
  split_ifs with hmark
  · obtain ⟨start,rest,rfl,hstart⟩ := List.eq_append_cons_of_mem hmark
    have hall : ∀ c ∈ start, decide (c ≠ '?') = true := by
      intro c hc
      simpa using fun h : c = '?' => hstart (h ▸ hc)
    rw [List.append_assoc,List.takeWhile_append_of_pos hall,List.takeWhile_append_of_pos hall]
    simp
  · have hall : ∀ c ∈ url, decide (c ≠ '?') = true := by
      intro c hc
      simpa using fun h : c = '?' => hmark (h ▸ hc)
    rw [List.takeWhile_append_of_pos hall,List.takeWhile_eq_self_iff.mpr hall]
    simp

theorem urlStringWithoutQueryString_eq_iff (url : Text) :
    urlStringWithoutQueryString url = url ↔ '?' ∉ url := by
  rw [urlStringWithoutQueryString,List.takeWhile_eq_self_iff]
  constructor
  · intro h hmem
    exact absurd (h '?' hmem) (by decide)
  · intro h c hc
    simpa using fun hmark : c = '?' => h (hmark ▸ hc)

/-- What an authorization server reads from the address of its page. -/
theorem authorization_url_names (htakes : TakesParameters client.authorizeURL)
    (hread : Readable client.authorizeURL) (redirectURL : Text) :
    let url := client.authorizationURLWithRedirectURL redirectURL
    valueForQueryParameterKey url "redirect_uri".toList = .ok (some redirectURL) ∧
      valueForQueryParameterKey url "client_id".toList = .ok (some client.clientId) := by
  obtain ⟨hredirect,hid⟩ := authorization_names client redirectURL
  obtain ⟨oldRedirect,holdRedirect⟩ := hread "redirect_uri".toList
  obtain ⟨oldId,holdId⟩ := hread "client_id".toList
  dsimp only
  rw [NXOAuth2Client.authorizationURLWithRedirectURL,value_after_adding htakes,
    value_after_adding htakes,hredirect,hid,holdRedirect,holdId]
  exact ⟨rfl,rfl⟩

theorem readable_of_no_query {url : Text} (h : '?' ∉ url) : Readable url := by
  intro key
  exact ⟨none,valueForQueryParameterKey_of_none (afterMark_none h) key⟩

theorem openRedirectURL_of_code {url code : Text} (hidle : client.authConnection = none)
    (h : valueForQueryParameterKey url "code".toList = .ok (some code)) :
    client.openRedirectURL url = .ok (.requestToken (client.tokenParameters code
      (urlStringWithoutQueryString url))) := by
  have hrequest : client.requestTokenWithAuthGrant code (urlStringWithoutQueryString url) =
      .ok (client.tokenParameters code (urlStringWithoutQueryString url)) := by
    rw [NXOAuth2Client.requestTokenWithAuthGrant,hidle]
    rfl
  rw [NXOAuth2Client.openRedirectURL,h]
  simp only [Except.mapError,bind,Except.bind,hrequest]
  rfl

theorem idle_of_requestToken {url : Text} {parameters : Parameters}
    (h : client.openRedirectURL url = .ok (.requestToken parameters)) :
    client.authConnection = none := by
  cases hconnection : client.authConnection with
  | none => rfl
  | some context =>
    have hraises : ∀ grant, client.requestTokenWithAuthGrant grant
        (urlStringWithoutQueryString url) = .error .authConnectionAlreadyRunning := by
      intro grant
      rw [NXOAuth2Client.requestTokenWithAuthGrant,hconnection]
      rfl
    rw [NXOAuth2Client.openRedirectURL] at h
    obtain ⟨code,_,h⟩ := Runs.bind_eq_ok.mp h
    cases code with
    | some grant =>
      dsimp only at h
      rw [hraises] at h
      exact absurd h (by simp [bind,Except.bind])
    | none =>
      obtain ⟨error,_,h⟩ := Runs.bind_eq_ok.mp h
      split at h
      · split at h
        · exact absurd (Except.ok.inj h) (by simp)
        · exact absurd (Except.ok.inj h) (by simp)
      · exact absurd (Except.ok.inj h) (by simp)

/-- An authorization server sends the browser to the redirect URL it was given, with its answer
added to the query. A client that waits for no answer asks for a token then: its request has the
code of the answer and the client of the authorization, and it names the redirect URL of the
authorization, as the server has to check, exactly if that URL has no query of its own. -/
theorem token_request_fits_authorization {answer : Parameters} {code : Text}
    (hcode : answer.lookup "code".toList = some code) (hidle : client.authConnection = none)
    (hauthorize : TakesParameters client.authorizeURL) (hread : Readable client.authorizeURL)
    (hredirect : TakesParameters redirectURL) (hback : Readable redirectURL) :
    ∃ parameters, client.openRedirectURL (urlByAddingParameters redirectURL answer) =
        .ok (.requestToken parameters) ∧
      parameters.lookup "code".toList = some code ∧
      (let url := client.authorizationURLWithRedirectURL redirectURL
      valueForQueryParameterKey url "client_id".toList =
          .ok (parameters.lookup "client_id".toList) ∧
        (valueForQueryParameterKey url "redirect_uri".toList =
          .ok (parameters.lookup "redirect_uri".toList) ↔ '?' ∉ redirectURL)) := by
  obtain ⟨oldCode,holdCode⟩ := hback "code".toList
  have hvalue : valueForQueryParameterKey (urlByAddingParameters redirectURL answer)
      "code".toList = .ok (some code) := by
    rw [value_after_adding hredirect,hcode,holdCode]
    rfl
  have hentries : answer.entries ≠ [] := by
    intro h
    rw [AList.lookup,h] at hcode
    exact absurd hcode (by simp)
  have hstripped := urlStringWithoutQueryString_adding hentries redirectURL
  obtain ⟨hnamed,hid,hgrant⟩ := token_request_names client code
    (urlStringWithoutQueryString (urlByAddingParameters redirectURL answer))
  obtain ⟨hserver,hserverId⟩ := authorization_url_names hauthorize hread redirectURL
  refine ⟨_,openRedirectURL_of_code hidle hvalue,hgrant,?_,?_⟩
  · rw [hserverId,hid]
  · rw [hserver,hnamed,hstripped,Except.ok.injEq,Option.some.injEq,eq_comm]
    exact urlStringWithoutQueryString_eq_iff redirectURL

def instagramClient : NXOAuth2Client where
  clientId := "31675868a92246c8b65a70f802ac8581".toList
  clientSecret := "1ce071f03ccc4b3f8679c86298966726".toList
  authorizeURL := "https://api.instagram.com/oauth/authorize".toList
  tokenURL := "https://api.instagram.com/oauth/access_token".toList
  desiredScope := none
  additionalAuthenticationParameters := none
  delegate := .store
  accessToken := none
  authConnection := none
  refreshConnectionDidRetryCount := 0
  refreshScheduled := 0

def outgoingRedirect : Text :=
  "http://djp3.westmont.edu/classes/2015-coursera-live/redirect.php/myscheme/thing.com".toList

theorem token_request_fits_authorization_instagram :
    ∃ parameters, instagramClient.openRedirectURL (urlByAddingParameters outgoingRedirect
        ((∅ : Parameters).insert "code".toList "a b&c=é".toList)) =
        .ok (.requestToken parameters) ∧
      parameters.lookup "code".toList = some "a b&c=é".toList ∧
      (let url := instagramClient.authorizationURLWithRedirectURL outgoingRedirect
      valueForQueryParameterKey url "client_id".toList =
          .ok (parameters.lookup "client_id".toList) ∧
        (valueForQueryParameterKey url "redirect_uri".toList =
          .ok (parameters.lookup "redirect_uri".toList) ↔ '?' ∉ outgoingRedirect)) :=
  token_request_fits_authorization (AList.lookup_insert _) rfl (by decide)
    (readable_of_no_query (by decide)) (by decide) (readable_of_no_query (by decide))

end OAuth2
end CourseraObjC
