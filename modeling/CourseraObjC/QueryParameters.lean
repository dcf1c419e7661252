import CourseraObjC.PercentEncoding
import CourseraObjC.KeyedUpdates
import Mathlib.Data.List.Infix
import Mathlib.Data.List.TakeWhile

/-! Parameters in the query of a URL, as an OAuth client writes them into the address of the
authorization page and reads them from the address it is sent back to. A URL is taken for its
absolute string, and a string for its characters. -/
namespace CourseraObjC
namespace QueryParameters

abbrev Text := List Char

abbrev Parameters := Dictionary Text Text

/-- What a dictionary raises that is given no key. -/
inductive DictionaryException
  | keyCannotBeNil
  deriving DecidableEq

/-- What is not escaped: the legal characters of a URL that are not to be escaped on request. -/
def unreserved (c : Char) : Bool :=
  ('a' ≤ c && c ≤ 'z') || ('A' ≤ c && c ≤ 'Z') || ('0' ≤ c && c ≤ '9') ||
    c = '-' || c = '_' || c = '.' || c = '~'

def urlEncodedString (s : Text) : Text := PercentEncoding.encode unreserved s

def urlDecodedString (s : Text) : Option Text := PercentEncoding.decode s

def parameterPair (e : Sigma fun _ : Text => Text) : Text :=
  urlEncodedString e.1++ '='::urlEncodedString e.2

def stringWithEncodedQueryParameters (parameters : Parameters) : Text :=
  ['&'].intercalate (parameters.entries.map parameterPair)

/-- A pair sets a value, one that cannot be decoded removes it, and what is no pair is skipped. -/
def setEncodedPair (requestParameters : Parameters) (encodedPair : Text) :
    Except DictionaryException Parameters :=
  match encodedPair.splitOn '=' with
  | [key,value] =>
    match urlDecodedString key with
    | some decodedKey => .ok (requestParameters.put decodedKey (urlDecodedString value))
    | none => .error .keyCannotBeNil
  | _ => .ok requestParameters

def setEncodedPairs (encodedParameterPairs : List Text) (requestParameters : Parameters) :
    Except DictionaryException Parameters :=
  encodedParameterPairs.foldlM setEncodedPair requestParameters

def parametersFromEncodedQueryString (s : Text) : Except DictionaryException Parameters :=
  setEncodedPairs (s.splitOn '&') ∅

def urlByAddingParameters (url : Text) (parameterDictionary : Parameters) : Text :=
  if parameterDictionary.entries.isEmpty then url
  else
    let newParameterString := stringWithEncodedQueryParameters parameterDictionary
    if '?' ∈ url then url++ '&'::newParameterString else url++ '?'::newParameterString

def schemeCharacter (c : Char) : Bool :=
  c.isAlphanum || c = '+' || c = '-' || c = '.'

/-- A URL has parts unless it goes on after its scheme without a slash. -/
def canBeDecomposed (url : Text) : Bool :=
  match url.takeWhile schemeCharacter,url.dropWhile schemeCharacter with
  | _::_,':'::rest => rest.head? = some '/'
  | _,_ => true

/-- What stands between the first question mark and the fragment. -/
def afterMark (url : Text) : Option Text :=
  match (url.takeWhile (· ≠ '#')).dropWhile (· ≠ '?') with
  | [] => none
  | _::q => some q

def query (url : Text) : Option Text := if canBeDecomposed url then afterMark url else none

def containsString (s part : Text) : Bool := s.tails.any fun tail => part.isPrefixOf tail

def qualified (url : Text) : Text :=
  if containsString url [':','/','/'] then url else ['h','t','t','p',':','/','/']++url

/-- A URL without parts gets a scheme that gives it some, but not if it looks as if it had one. -/
def hidesQuery (url : Text) : Bool :=
  containsString url [':','/','/'] && !canBeDecomposed url

/-- What is added to the URL becomes part of a query that is read. -/
def TakesParameters (url : Text) : Prop := '#' ∉ url ∧ hidesQuery url = false

instance decidableTakesParameters (url : Text) : Decidable (TakesParameters url) :=
  inferInstanceAs (Decidable ('#' ∉ url ∧ hidesQuery url = false))

def valueForQueryParameterKey (url key : Text) : Except DictionaryException (Option Text) :=
  match query (qualified url) with
  | none => .ok none
  | some queryString => do
    let parameters ← parametersFromEncodedQueryString queryString
    return parameters.lookup key

def urlStringWithoutQueryString (url : Text) : Text := url.takeWhile (· ≠ '?')

theorem decoded_encoded (s : Text) : urlDecodedString (urlEncodedString s) = some s :=
  PercentEncoding.decode_encode (by decide) s

theorem not_mem_urlEncodedString {sep : Char} (h : sep ∈ ['&','=','?','#',':','/']) (s : Text) :
    sep ∉ urlEncodedString s := by
  simp only [List.mem_cons,List.not_mem_nil,or_false] at h
  rcases h with rfl | rfl | rfl | rfl | rfl | rfl
  · exact PercentEncoding.not_mem_encode (by decide) (by decide) (by decide) s
  · exact PercentEncoding.not_mem_encode (by decide) (by decide) (by decide) s
  · exact PercentEncoding.not_mem_encode (by decide) (by decide) (by decide) s
  · exact PercentEncoding.not_mem_encode (by decide) (by decide) (by decide) s
  · exact PercentEncoding.not_mem_encode (by decide) (by decide) (by decide) s
  · exact PercentEncoding.not_mem_encode (by decide) (by decide) (by decide) s

theorem not_mem_parameterPair {sep : Char} (h : sep ∈ ['&','?','#',':','/'])
    (e : Sigma fun _ : Text => Text) : sep ∉ parameterPair e := by
  have hall : sep ∈ ['&','=','?','#',':','/'] := by
    simp only [List.mem_cons,List.not_mem_nil,or_false] at h ⊢
    tauto
  have hne : sep ≠ '=' := by
    rintro rfl
    exact absurd h (by decide)
  simp only [parameterPair,List.mem_append,List.mem_cons,not_or]
  exact ⟨not_mem_urlEncodedString hall _,hne,not_mem_urlEncodedString hall _⟩

theorem setEncodedPair_parameterPair (d : Parameters) (e : Sigma fun _ : Text => Text) :
    setEncodedPair d (parameterPair e) = .ok (d.put e.1 (some e.2)) := by
  have hsplit : (parameterPair e).splitOn '=' = [urlEncodedString e.1,urlEncodedString e.2] := by
    rw [parameterPair,List.splitOn_append_cons_self_of_not_mem
      (not_mem_urlEncodedString (by simp) e.1),
      List.splitOn_eq_singleton (not_mem_urlEncodedString (by simp) e.2)]
  simp only [setEncodedPair,hsplit,decoded_encoded]

/-- The pairs of a dictionary, set one after the other over what was there before. -/
theorem setEncodedPairs_entries {entries : List (Sigma fun _ : Text => Text)}
    (hnd : entries.NodupKeys) (d : Parameters) :
    ∃ d', setEncodedPairs (entries.map parameterPair) d = .ok d' ∧
      ∀ key, d'.lookup key = (entries.dlookup key).or (d.lookup key) := by
  induction entries generalizing d with
  | nil => exact ⟨d,rfl,fun key => rfl⟩
  | cons e entries ih =>
    rw [List.nodupKeys_cons] at hnd
    obtain ⟨d',hd',hlookup⟩ := ih hnd.2 (d.put e.1 (some e.2))
    refine ⟨d',?_,fun key => ?_⟩
    · rw [setEncodedPairs,List.map_cons,List.foldlM_cons,setEncodedPair_parameterPair]
      exact hd'
    · rw [hlookup,Dictionary.lookup_put]
      by_cases hkey : key = e.1
      · subst hkey
        rw [List.dlookup_eq_none.mpr hnd.1,if_pos rfl,Option.none_or,List.dlookup_cons_eq]
        rfl
      · rw [if_neg hkey,List.dlookup_cons_ne _ _ (by simpa using hkey)]

theorem splitOn_encodedParameters {parameters : Parameters}
    (hne : parameters.entries ≠ []) :
    (stringWithEncodedQueryParameters parameters).splitOn '&' =
      parameters.entries.map parameterPair := by
  apply List.splitOn_intercalate
  · intro l hl
    obtain ⟨e,_,rfl⟩ := List.mem_map.mp hl
    exact not_mem_parameterPair (by simp) e
  · simpa using hne

theorem parameters_of_encoded (parameters : Parameters) :
    ∃ d, parametersFromEncodedQueryString (stringWithEncodedQueryParameters parameters) = .ok d ∧
      ∀ key, d.lookup key = parameters.lookup key := by
  by_cases hne : parameters.entries = []
  · refine ⟨∅,?_,fun key => ?_⟩
    · simp [parametersFromEncodedQueryString,stringWithEncodedQueryParameters,hne,
        setEncodedPairs,setEncodedPair]
    · rw [AList.lookup_empty,AList.lookup,hne]
      rfl
  · obtain ⟨d,hd,hlookup⟩ := setEncodedPairs_entries parameters.nodupKeys ∅
    refine ⟨d,?_,fun key => ?_⟩
    · rw [parametersFromEncodedQueryString,splitOn_encodedParameters hne]
      exact hd
    · rw [hlookup,AList.lookup_empty,Option.or_none]
      rfl

theorem not_mem_encodedParameters {sep : Char} (h : sep ∈ ['?','#',':','/'])
    (parameters : Parameters) : sep ∉ stringWithEncodedQueryParameters parameters := by
  have hpair : sep ∈ ['&','?','#',':','/'] := List.mem_cons_of_mem _ h
  have hne : sep ≠ '&' := by
    rintro rfl
    exact absurd h (by decide)
  rw [stringWithEncodedQueryParameters]
  induction parameters.entries with
  | nil => simp
  | cons e entries ih =>
    have he := not_mem_parameterPair hpair e
    cases entries with
    | nil => simpa using he
    | cons e' entries =>
      simp only [List.map_cons,List.intercalate_cons_cons,List.mem_append,not_or] at ih ⊢
      exact ⟨⟨he,by simpa using hne⟩,ih⟩

theorem containsString_iff (s part : Text) : containsString s part = true ↔ part <:+: s := by
  simp only [containsString,List.any_eq_true,List.mem_tails,List.isPrefixOf_iff_prefix,
    List.infix_iff_prefix_suffix,and_comm]

/-- A text that has none of the characters of the part brings no occurrence of it. -/
theorem containsString_append {part t : Text} (hne : part ≠ []) (h : ∀ c ∈ part, c ∉ t)
    (s : Text) : containsString (s++t) part = containsString s part := by
  rw [Bool.eq_iff_iff,containsString_iff,containsString_iff,List.infix_append_iff_ne_nil]
  constructor
  · rintro (hs | ht | ⟨l,r,_,hr,rfl,_,hpart⟩)
    · exact hs
    · obtain ⟨c,hc⟩ := List.exists_mem_of_ne_nil part hne
      exact absurd (ht.subset hc) (h c hc)
    · obtain ⟨c,hc⟩ := List.exists_mem_of_ne_nil r hr
      exact absurd (hpart.subset hc) (h c (List.mem_append_right l hc))
  · exact Or.inl

/-- What is added after a separator does not change whether there are parts. -/
theorem canBeDecomposed_append {sep : Char} (hsep : sep = '?' ∨ sep = '&') (url q : Text) :
    canBeDecomposed (url++sep::q) = canBeDecomposed url := by
  have hscheme : schemeCharacter sep = false := by rcases hsep with rfl | rfl <;> decide
  have hcolon : sep ≠ ':' := by rcases hsep with rfl | rfl <;> decide
  have hslash : sep ≠ '/' := by rcases hsep with rfl | rfl <;> decide
  cases hrest : url.dropWhile schemeCharacter with
  | nil =>
    have hdrop : (url++sep::q).dropWhile schemeCharacter = sep::q := by
      rw [List.dropWhile_append,hrest,List.isEmpty_nil,if_pos rfl,
        List.dropWhile_cons_of_neg (by simp [hscheme])]
    simp [canBeDecomposed,hrest,hdrop,hcolon]
  | cons c rest =>
    have hdrop : (url++sep::q).dropWhile schemeCharacter = c::(rest++sep::q) := by
      rw [List.dropWhile_append,hrest]
      rfl
    have htake : (url++sep::q).takeWhile schemeCharacter = url.takeWhile schemeCharacter := by
      rw [List.takeWhile_append,if_neg]
      intro hlength
      have hall := List.takeWhile_append_dropWhile (p := schemeCharacter) (l := url)
      have hsum := congrArg List.length hall
      simp [hrest,hlength] at hsum
    rw [canBeDecomposed,canBeDecomposed,hdrop,htake,hrest]
    cases url.takeWhile schemeCharacter with
    | nil => rfl
    | cons d scheme =>
      by_cases hc : c = ':'
      · subst hc
        cases rest with
        | nil => simp [hslash]
        | cons d rest => rfl
      · simp [hc]

theorem hidesQuery_adding (url : Text) (parameters : Parameters) :
    hidesQuery (urlByAddingParameters url parameters) = hidesQuery url := by
  have hadded : ∀ sep, sep = '?' ∨ sep = '&' →
      hidesQuery (url++sep::stringWithEncodedQueryParameters parameters) = hidesQuery url := by
    intro sep hsep
    have hpart : ∀ c ∈ [':','/','/'], c ∉ sep::stringWithEncodedQueryParameters parameters := by
      intro c hc
      have hmem : c ∈ ['?','#',':','/'] := by
        simp only [List.mem_cons,List.not_mem_nil,or_false] at hc ⊢
        tauto
      have hne : c ≠ sep := by
        rintro rfl
        rcases hsep with rfl | rfl <;> exact absurd hc (by decide)
      exact List.not_mem_cons_of_ne_of_not_mem hne (not_mem_encodedParameters hmem parameters)
    rw [hidesQuery,hidesQuery,containsString_append (by decide) hpart,canBeDecomposed_append hsep]
  rw [urlByAddingParameters]
  split_ifs
  · rfl
  · exact hadded '&' (Or.inr rfl)
  · exact hadded '?' (Or.inl rfl)

theorem afterMark_fragment {url : Text} (h : '#' ∉ url) (fragment : Text) :
    afterMark (url++ '#'::fragment) = afterMark url := by
  have hall : ∀ c ∈ url, decide (c ≠ '#') = true := by
    intro c hc
    simpa using fun hsharp : c = '#' => h (hsharp ▸ hc)
  have hself := List.takeWhile_eq_self_iff.mpr hall
  rw [afterMark,afterMark,List.takeWhile_append_of_pos hall,hself]
  simp

/-- A beginning without question mark and fragment has no say in the query. -/
theorem afterMark_prefixed {start : Text} (hquery : '?' ∉ start) (hfragment : '#' ∉ start)
    (url : Text) : afterMark (start++url) = afterMark url := by
  have hsharp : ∀ c ∈ start, decide (c ≠ '#') = true := by
    intro c hc
    simpa using fun h : c = '#' => hfragment (h ▸ hc)
  have hmark : ∀ c ∈ start, decide (c ≠ '?') = true := by
    intro c hc
    simpa using fun h : c = '?' => hquery (h ▸ hc)
  rw [afterMark,afterMark,List.takeWhile_append_of_pos hsharp,
    List.dropWhile_append_of_pos hmark]

theorem query_qualified (url : Text) :
    query (qualified url) = if hidesQuery url then none else afterMark url := by
  rw [qualified,query,hidesQuery]
  cases containsString url [':','/','/'] with
  | true =>
    cases hparts : canBeDecomposed url with
    | true => simp [hparts]
    | false => simp [hparts]
  | false =>
    have hparts : canBeDecomposed (['h','t','t','p',':','/','/']++url) = true := rfl
    simp only [Bool.false_eq_true,if_false,Bool.false_and]
    rw [hparts,if_pos rfl,afterMark_prefixed (by decide) (by decide)]

theorem afterMark_mark {q : Text} (h : '#' ∉ q) : afterMark ('?'::q) = some q := by
  have hall : ∀ c ∈ q, decide (c ≠ '#') = true := by
    intro c hc
    simpa using fun hsharp : c = '#' => h (hsharp ▸ hc)
  have hself := List.takeWhile_eq_self_iff.mpr hall
  rw [afterMark,List.takeWhile_cons_of_pos (by decide),hself]
  simp

theorem afterMark_append {start q : Text} (hstart : '?' ∉ start) (hfragment : '#' ∉ start)
    (hq : '#' ∉ q) : afterMark (start++ '?'::q) = some q := by
  rw [afterMark_prefixed hstart hfragment,afterMark_mark hq]

theorem afterMark_none {url : Text} (h : '?' ∉ url) : afterMark url = none := by
  have hall : ∀ c ∈ url.takeWhile (· ≠ '#'), decide (c ≠ '?') = true := by
    intro c hc
    have hmem := List.takeWhile_subset _ hc
    simpa using fun hmark : c = '?' => h (hmark ▸ hmem)
  have hnil := List.dropWhile_eq_nil_iff.mpr hall
  rw [afterMark,hnil]

theorem valueForQueryParameterKey_of_query {url queryString : Text}
    (hshown : hidesQuery url = false) (h : afterMark url = some queryString) (key : Text) :
    valueForQueryParameterKey url key =
      (parametersFromEncodedQueryString queryString).map fun d => d.lookup key := by
  rw [valueForQueryParameterKey,query_qualified,hshown,if_neg (by decide),h]
  dsimp only
  cases parametersFromEncodedQueryString queryString with
  | error x => rfl
  | ok d => rfl

theorem valueForQueryParameterKey_of_none {url : Text} (h : afterMark url = none) (key : Text) :
    valueForQueryParameterKey url key = .ok none := by
  rw [valueForQueryParameterKey,query_qualified,h,ite_self]

theorem parameters_of_appended (q : Text) (parameters : Parameters)
    (hne : parameters.entries ≠ []) (key : Text) :
    (parametersFromEncodedQueryString
        (q++ '&'::stringWithEncodedQueryParameters parameters)).map (fun d => d.lookup key) =
      (parametersFromEncodedQueryString q).map
        fun d => (parameters.lookup key).or (d.lookup key) := by
  rw [parametersFromEncodedQueryString,parametersFromEncodedQueryString,
    List.splitOn_append_cons_self,splitOn_encodedParameters hne,setEncodedPairs,
    List.foldlM_append]
  have hfold : (q.splitOn '&').foldlM setEncodedPair ∅ = setEncodedPairs (q.splitOn '&') ∅ := rfl
  rw [hfold]
  cases setEncodedPairs (q.splitOn '&') ∅ with
  | error x => rfl
  | ok d =>
    obtain ⟨d',hd',hlookup⟩ := setEncodedPairs_entries parameters.nodupKeys d
    have hrest : (parameters.entries.map parameterPair).foldlM setEncodedPair d = .ok d' := hd'
    simp only [bind,Except.bind,hrest,Except.map,hlookup]
    rfl

theorem value_after_adding {url : Text} (htakes : TakesParameters url) (parameters : Parameters)
    (key : Text) :
    valueForQueryParameterKey (urlByAddingParameters url parameters) key =
      (valueForQueryParameterKey url key).map fun old => (parameters.lookup key).or old := by
  obtain ⟨hfragment,hshown⟩ := htakes
  have hshown' := (hidesQuery_adding url parameters).trans hshown
  rw [urlByAddingParameters] at hshown' ⊢
  have hs := not_mem_encodedParameters (show '#' ∈ ['?','#',':','/'] by simp) parameters
  split_ifs at hshown' ⊢ with hempty hquery
  · have hnone : parameters.lookup key = none := by
      rw [AList.lookup,List.isEmpty_iff.mp hempty]
      rfl
    rw [hnone]
    cases valueForQueryParameterKey url key with
    | error x => rfl
    | ok old => rfl
  · obtain ⟨start,q,rfl,hstart⟩ := List.eq_append_cons_of_mem hquery
    have hne : parameters.entries ≠ [] := fun h => hempty (List.isEmpty_iff.mpr h)
    simp only [List.mem_append,List.mem_cons,not_or] at hfragment
    have hq : '#' ∉ q++ '&'::stringWithEncodedQueryParameters parameters := by
      simp only [List.mem_append,List.mem_cons,not_or]
      exact ⟨hfragment.2.2,by decide,hs⟩
    have hurl : afterMark (start++ '?'::q) = some q :=
      afterMark_append hstart hfragment.1 hfragment.2.2
    have hadded : afterMark (start++ '?'::q++ '&'::stringWithEncodedQueryParameters parameters) =
        some (q++ '&'::stringWithEncodedQueryParameters parameters) := by
      rw [List.append_assoc,List.cons_append]
      exact afterMark_append hstart hfragment.1 hq
    rw [valueForQueryParameterKey_of_query hshown' hadded,
      valueForQueryParameterKey_of_query hshown hurl,parameters_of_appended q parameters hne]
    cases parametersFromEncodedQueryString q with
    | error x => rfl
    | ok d => rfl
  · have hadded : afterMark (url++ '?'::stringWithEncodedQueryParameters parameters) =
        some (stringWithEncodedQueryParameters parameters) := afterMark_append hquery hfragment hs
    obtain ⟨d,hd,hlookup⟩ := parameters_of_encoded parameters
    rw [valueForQueryParameterKey_of_query hshown' hadded,
      valueForQueryParameterKey_of_none (afterMark_none hquery),hd]
    simp [Except.map,hlookup]

theorem afterMark_adding {url : Text} (hfragment : '#' ∈ url) (parameters : Parameters) :
    afterMark (urlByAddingParameters url parameters) = afterMark url := by
  obtain ⟨start,fragment,rfl,hstart⟩ := List.eq_append_cons_of_mem hfragment
  rw [urlByAddingParameters]
  split_ifs
  · rfl
  · rw [List.append_assoc,List.cons_append,afterMark_fragment hstart,afterMark_fragment hstart]
  · rw [List.append_assoc,List.cons_append,afterMark_fragment hstart,afterMark_fragment hstart]

/-- Parameters that are added to a URL are read from it, before those of the same keys that it
had, exactly if it has no fragment and a query that is read. Else what is read stays the same. -/
theorem value_of_added_parameter (url : Text) (parameters : Parameters) (key : Text) :
    valueForQueryParameterKey (urlByAddingParameters url parameters) key =
      if TakesParameters url then
        (valueForQueryParameterKey url key).map fun old => (parameters.lookup key).or old
      else valueForQueryParameterKey url key := by
  split_ifs with htakes
  · exact value_after_adding htakes parameters key
  · rw [valueForQueryParameterKey,valueForQueryParameterKey,query_qualified,query_qualified,
      hidesQuery_adding]
    cases hshown : hidesQuery url with
    | true => rfl
    | false =>
      have hfragment : '#' ∈ url := by
        by_contra hnot
        exact htakes ⟨hnot,hshown⟩
      rw [afterMark_adding hfragment]

end QueryParameters
end CourseraObjC
