import CourseraObjC.Runs
import Mathlib.Data.List.Nodup
import Mathlib.Data.Rat.Init

/-! A request for distances. After a search for the source there is one for each destination;
these complete in any order, and the one that completes last hands over the distances. -/
namespace CourseraObjC
namespace DistanceMeasure

open Runs

structure LookUps where
  source : Bool
  destination : ℕ → Option ℚ

/-- A destination has a distance only if the source was found as well. -/
def LookUps.distance (lookUps : LookUps) (idx : ℕ) : Option ℚ :=
  if lookUps.source then lookUps.destination idx else none

/-- `callback` says whether there is still one, `called` what it was called with; the other
two fields are the searches in flight. -/
structure DGDistanceRequest where
  locationDescriptions : List String
  outstandingRequests : ℕ
  responses : List ℚ
  callback : Bool
  called : List (List ℚ)
  sourceSearch : Bool
  searches : List ℕ

inductive Completion
  | source
  | destination (idx : ℕ)

/-- The completion of a search that is not in flight. -/
inductive Impossible
  | impossible
  deriving DecidableEq

namespace DGDistanceRequest

def start (descs : List String) : DGDistanceRequest where
  locationDescriptions := descs
  outstandingRequests := descs.length
  responses := List.replicate descs.length (-1)
  callback := true
  called := []
  sourceSearch := true
  searches := []

def callBack (req : DGDistanceRequest) : DGDistanceRequest :=
  if req.callback then { req with called := req.called++[req.responses], callback := false }
  else req

def sourceCompleted (lookUps : LookUps) (req : DGDistanceRequest) : DGDistanceRequest :=
  if lookUps.source = false ∨ req.outstandingRequests = 0 then req.callBack
  else { req with searches := List.range req.locationDescriptions.length }

def destinationCompleted (lookUps : LookUps) (idx : ℕ) (req : DGDistanceRequest) :
    DGDistanceRequest :=
  let req :=
    match lookUps.destination idx with
    | some distance => { req with responses := req.responses.set idx distance }
    | none => req
  let req := { req with outstandingRequests := req.outstandingRequests-1 }
  if req.outstandingRequests = 0 then req.callBack else req

def step (lookUps : LookUps) (req : DGDistanceRequest) : Completion → Except Impossible DGDistanceRequest
  | .source =>
    if req.sourceSearch then .ok (sourceCompleted lookUps { req with sourceSearch := false })
    else .error .impossible
  | .destination idx =>
    if idx ∈ req.searches then
      .ok (destinationCompleted lookUps idx { req with searches := req.searches.erase idx })
    else .error .impossible

end DGDistanceRequest

/-- What the callback is to be called with: the distances, and -1 where there is none. -/
def answer (lookUps : LookUps) (count : ℕ) : List ℚ :=
  (List.range count).map fun idx => (lookUps.distance idx).getD (-1)

def buffer (lookUps : LookUps) (searches : List ℕ) (count : ℕ) : List ℚ :=
  (List.range count).map fun idx =>
    if idx ∈ searches then -1 else (lookUps.destination idx).getD (-1)

def searching (lookUps : LookUps) (descs : List String) (searches : List ℕ) : DGDistanceRequest where
  locationDescriptions := descs
  outstandingRequests := searches.length
  responses := buffer lookUps searches descs.length
  callback := true
  called := []
  sourceSearch := false
  searches := searches

def finished (lookUps : LookUps) (descs : List String) (outstandingRequests : ℕ) :
    DGDistanceRequest where
  locationDescriptions := descs
  outstandingRequests := outstandingRequests
  responses := answer lookUps descs.length
  callback := false
  called := [answer lookUps descs.length]
  sourceSearch := false
  searches := []

/-- A request waits for the source, then for the destinations that are still searched, and
then it has called back. -/
inductive Phase (lookUps : LookUps) (descs : List String) : DGDistanceRequest → Prop
  | source : Phase lookUps descs (.start descs)
  | destinations {searches : List ℕ} (found : lookUps.source = true) (waits : searches ≠ [])
      (nodup : searches.Nodup) : Phase lookUps descs (searching lookUps descs searches)
  | done (outstandingRequests : ℕ) : Phase lookUps descs (finished lookUps descs outstandingRequests)

variable {lookUps : LookUps} {descs : List String} {req req' : DGDistanceRequest} {searches : List ℕ}

theorem buffer_range (lookUps : LookUps) (count : ℕ) :
    buffer lookUps (List.range count) count = List.replicate count (-1) := by
  refine List.eq_replicate_iff.mpr ⟨by simp [buffer],fun x hx => ?_⟩
  obtain ⟨idx,hidx,rfl⟩ := List.mem_map.mp hx
  exact if_pos hidx

theorem answer_of_not_found (h : lookUps.source = false) (count : ℕ) :
    answer lookUps count = List.replicate count (-1) := by
  refine List.eq_replicate_iff.mpr ⟨by simp [answer],fun x hx => ?_⟩
  obtain ⟨idx,_,rfl⟩ := List.mem_map.mp hx
  simp [LookUps.distance,h]

theorem buffer_nil (h : lookUps.source = true) (count : ℕ) :
    buffer lookUps [] count = answer lookUps count := by
  simp [buffer,answer,LookUps.distance,h]

/-- A completed search for a destination puts its distance into the buffer, or leaves the -1. -/
theorem buffer_erase (hnodup : searches.Nodup) (idx count : ℕ) :
    (match lookUps.destination idx with
      | some distance => (buffer lookUps searches count).set idx distance
      | none => buffer lookUps searches count) = buffer lookUps (searches.erase idx) count := by
  have hother : ∀ i, i ≠ idx → (i ∈ searches.erase idx ↔ i ∈ searches) :=
    fun i hi => List.mem_erase_of_ne hi
  have hself : idx ∉ searches.erase idx := hnodup.not_mem_erase
  cases hdestination : lookUps.destination idx with
  | none =>
    apply List.map_congr_left
    intro i _
    by_cases hi : i = idx
    · subst hi
      simp [hself,hdestination]
    · simp [hother i hi]
  | some distance =>
    apply List.ext_getElem
    · simp [buffer]
    intro i _ _
    by_cases hi : idx = i
    · subst hi
      simp [buffer,hself,hdestination]
    · simp [buffer,List.getElem_set_of_ne hi,hother i (Ne.symm hi)]

theorem phase_sourceCompleted (lookUps : LookUps) (descs : List String) :
    Phase lookUps descs (DGDistanceRequest.sourceCompleted lookUps
      { DGDistanceRequest.start descs with sourceSearch := false }) := by
  rw [DGDistanceRequest.sourceCompleted]
  split_ifs with hover
  · have hanswer : answer lookUps descs.length = List.replicate descs.length (-1) := by
      rcases hover with hsource | hnone
      · exact answer_of_not_found hsource _
      · have hlength : descs.length = 0 := hnone
        simp [hlength,answer]
    have hdone : Phase lookUps descs (finished lookUps descs descs.length) := .done descs.length
    rwa [finished,hanswer] at hdone
  · obtain ⟨hsource,hsome⟩ := not_or.mp hover
    have hlength : descs.length ≠ 0 := hsome
    have hrange : List.range descs.length ≠ [] := by simpa using hlength
    have hsearching : Phase lookUps descs (searching lookUps descs (List.range descs.length)) :=
      .destinations (by simpa using hsource) hrange List.nodup_range
    rwa [searching,List.length_range,buffer_range] at hsearching

theorem destinationCompleted_eq (lookUps : LookUps) (idx : ℕ) (req : DGDistanceRequest) :
    DGDistanceRequest.destinationCompleted lookUps idx req =
      let req := { req with
        responses := match lookUps.destination idx with
          | some distance => req.responses.set idx distance
          | none => req.responses
        outstandingRequests := req.outstandingRequests-1 }
      if req.outstandingRequests = 0 then req.callBack else req := by
  rw [DGDistanceRequest.destinationCompleted]
  cases lookUps.destination idx <;> rfl

theorem phase_destinationCompleted {idx : ℕ} (hfound : lookUps.source = true)
    (hnodup : searches.Nodup) (hidx : idx ∈ searches) :
    Phase lookUps descs (DGDistanceRequest.destinationCompleted lookUps idx
      { searching lookUps descs searches with searches := searches.erase idx }) := by
  have hlength := List.length_erase_of_mem hidx
  rw [destinationCompleted_eq]
  simp only [searching,buffer_erase hnodup,← hlength]
  split_ifs with hlast
  · rw [List.length_eq_zero_iff] at hlast
    rw [hlast,buffer_nil hfound]
    exact .done 0
  · have hwaits : searches.erase idx ≠ [] := by simpa using hlast
    exact .destinations hfound hwaits (hnodup.erase idx)

theorem phase_step (completion : Completion) (hreq : Phase lookUps descs req)
    (h : req.step lookUps completion = .ok req') : Phase lookUps descs req' := by
  cases completion with
  | source =>
    cases hreq with
    | source =>
      obtain rfl := Except.ok.inj h
      exact phase_sourceCompleted lookUps descs
    | destinations found waits nodup => cases h
    | done outstandingRequests => cases h
  | destination idx =>
    obtain ⟨hidx,rfl⟩ := guard_eq_ok.mp h
    cases hreq with
    | source => cases hidx
    | destinations found waits nodup => exact phase_destinationCompleted found nodup hidx
    | done outstandingRequests => cases hidx

/-- However the searches complete, the callback is called once, with the answer, and that when
the last of them is over. -/
theorem called_run {completions : List Completion}
    (hrun : run (DGDistanceRequest.step lookUps) (.start descs) completions = .ok req) :
    req.called =
      if req.sourceSearch = false ∧ req.searches = [] then [answer lookUps descs.length] else [] := by
  have hphase : Phase lookUps descs req :=
    run_invariant (fun completion _ _ => phase_step completion) .source hrun
  cases hphase with
  | source => rfl
  | destinations found waits nodup => exact (if_neg fun h => waits h.2).symm
  | done outstandingRequests => rfl

end DistanceMeasure
end CourseraObjC
