import CourseraObjC.Runs
import Mathlib.Data.Finset.Sort
import Mathlib.Data.Rat.Defs
import Mathlib.Data.String.Basic
import Mathlib.Order.Lattice

/-! The reverse-geocode demo. A map move asks the geocoder about the place under the pin
unless `lookUp` says that an earlier question is open; the answer comes later, as an event
of its own, and any number of moves may come before it. -/
namespace CourseraObjC
namespace ReverseGeocode

open Runs

structure CGPoint where
  x : ℚ
  y : ℚ

structure CGRect where
  x : ℚ
  y : ℚ
  width : ℚ
  height : ℚ

/-- A rectangle may extend to either side of its origin. -/
def CGRectGetMinX (r : CGRect) : ℚ := if r.width < 0 then r.x+r.width else r.x
def CGRectGetMinY (r : CGRect) : ℚ := if r.height < 0 then r.y+r.height else r.y

structure CLLocationCoordinate2D where
  latitude : ℚ
  longitude : ℚ
  deriving DecidableEq

structure CLLocation where
  latitude : ℚ
  longitude : ℚ
  deriving DecidableEq

/-- The map as it stands, as the conversion of points in the view of the pin. -/
structure MKMapView where
  convertPoint : CGPoint → CLLocationCoordinate2D

structure CLPlacemark where
  name : Option String
  administrativeArea : Option String
  country : Option String
  areasOfInterest : Option (List String)

/-- What a completion handler is called with. Nil placemarks count as none. -/
inductive Reply
  | placemarks (placemarks : List CLPlacemark)
  | error (localizedDescription : String)

structure Request where
  location : CLLocation
  reply : Option Reply

structure SetOrder where
  allObjects : Finset String → List String
  nodup : ∀ s, (allObjects s).Nodup
  mem : ∀ s x, x ∈ allObjects s ↔ x ∈ s

structure UILabel where
  text : Option String
  alpha : ℚ

structure UIAlertController where
  title : String
  message : String

/-- `geocoder` lists every request so far, and `presented` every alert. -/
structure ViewController where
  geocoder : List Request
  pinIcon : CGRect
  mapLabel : UILabel
  lookUp : Bool
  presented : List UIAlertController

/-- What the map and the geocoder report. A completion names the request it completes. -/
inductive Event
  | regionDidChangeAnimated (mapView : MKMapView)
  | completionHandler (request : ℕ) (order : SetOrder) (reply : Reply)

inductive Impossible
  | notInFlight
  deriving DecidableEq

def CLPlacemark.addTo (s : Finset String) (p : CLPlacemark) : Finset String :=
  let s := match p.name with | some name => insert name s | none => s
  let s := match p.administrativeArea with | some area => insert area s | none => s
  let s := match p.country with | some country => insert country s | none => s
  match p.areasOfInterest with | some areas => s ∪ areas.toFinset | none => s

def mappedPlaceDescriptions (placemarks : List CLPlacemark) : Finset String :=
  placemarks.foldl CLPlacemark.addTo ∅

namespace ViewController

def viewDidLoad (pinIcon : CGRect) : ViewController where
  geocoder := []
  pinIcon := pinIcon
  mapLabel := ⟨none,1/2⟩
  lookUp := false
  presented := []

def locationAtTheCenterOfMapView (mapView : MKMapView) (s : ViewController) :
    CLLocationCoordinate2D :=
  let centerOfPin : CGPoint := ⟨CGRectGetMinX s.pinIcon,CGRectGetMinY s.pinIcon⟩
  mapView.convertPoint centerOfPin

def startReverseGeocodeLocation (location : CLLocation) (s : ViewController) : ViewController :=
  { s with geocoder := s.geocoder++[⟨location,none⟩] }

def executeReverseGeocodeCall (mapView : MKMapView) (s : ViewController) : ViewController :=
  if s.lookUp = false then
    let s := { s with lookUp := true }
    let coord := s.locationAtTheCenterOfMapView mapView
    let loc : CLLocation := ⟨coord.latitude,coord.longitude⟩
    s.startReverseGeocodeLocation loc
  else s

def regionDidChangeAnimated (mapView : MKMapView) (s : ViewController) : ViewController :=
  s.executeReverseGeocodeCall mapView

def completionHandler (order : SetOrder) (s : ViewController) : Reply → ViewController
  | .error localizedDescription =>
    { s with presented := s.presented++[⟨"There was a problem.",localizedDescription⟩] }
  | .placemarks placemarks =>
    { s with
      mapLabel := ⟨some ("\n".intercalate (order.allObjects (mappedPlaceDescriptions placemarks))),1⟩
      lookUp := false }

/-- The geocoder completes each request once, at any time after it was started. -/
def step (s : ViewController) : Event → Except Impossible ViewController
  | .regionDidChangeAnimated mapView => .ok (s.regionDidChangeAnimated mapView)
  | .completionHandler k order reply =>
    match s.geocoder[k]? with
    | some ⟨location,none⟩ =>
      .ok ({ s with geocoder := s.geocoder.set k ⟨location,some reply⟩ }.completionHandler order reply)
    | _ => .error .notInFlight

def inFlight (s : ViewController) : ℕ := s.geocoder.countP fun r => r.reply.isNone

end ViewController

open ViewController

variable {pinIcon : CGRect} {s t : ViewController}

theorem mem_addTo {descriptions : Finset String} {p : CLPlacemark} {x : String} :
    x ∈ p.addTo descriptions ↔ x ∈ descriptions ∨ p.name = some x ∨ p.administrativeArea = some x ∨
      p.country = some x ∨ ∃ areas, p.areasOfInterest = some areas ∧ x ∈ areas := by
  obtain ⟨name,area,country,areas⟩ := p
  cases name <;> cases area <;> cases country <;> cases areas <;>
    simp only [CLPlacemark.addTo,Finset.mem_insert,Finset.mem_union,List.mem_toFinset,
      Option.some.injEq,reduceCtorEq,false_and,exists_false,exists_eq_left',or_false,false_or,
      eq_comm] <;>
    tauto

theorem mem_mappedPlaceDescriptions {placemarks : List CLPlacemark} {x : String} :
    x ∈ mappedPlaceDescriptions placemarks ↔
      ∃ p ∈ placemarks, p.name = some x ∨ p.administrativeArea = some x ∨ p.country = some x ∨
        ∃ areas, p.areasOfInterest = some areas ∧ x ∈ areas := by
  have hfold (descriptions : Finset String) :
      x ∈ placemarks.foldl CLPlacemark.addTo descriptions ↔ x ∈ descriptions ∨
        ∃ p ∈ placemarks, p.name = some x ∨ p.administrativeArea = some x ∨ p.country = some x ∨
          ∃ areas, p.areasOfInterest = some areas ∧ x ∈ areas := by
    induction placemarks generalizing descriptions with
    | nil => simp
    | cons p placemarks ih =>
      rw [List.foldl_cons,ih,mem_addTo,List.exists_mem_cons_iff,or_assoc]
  rw [mappedPlaceDescriptions,hfold]
  simp

/-! ### What a step does -/

theorem inFlight_eq_zero : s.inFlight = 0 ↔ ∀ r ∈ s.geocoder, r.reply ≠ none := by
  simp [ViewController.inFlight,List.countP_eq_zero]

theorem regionDidChangeAnimated_of_clear (mapView : MKMapView) (h : s.lookUp = false) :
    let coord := s.locationAtTheCenterOfMapView mapView
    s.regionDidChangeAnimated mapView =
      { s with lookUp := true, geocoder := s.geocoder++[⟨⟨coord.latitude,coord.longitude⟩,none⟩] } := by
  simp only [ViewController.regionDidChangeAnimated,executeReverseGeocodeCall,if_pos h]
  rfl

theorem regionDidChangeAnimated_of_set (mapView : MKMapView) (h : s.lookUp = true) :
    s.regionDidChangeAnimated mapView = s := by
  simp [ViewController.regionDidChangeAnimated,executeReverseGeocodeCall,h]

theorem inFlight_regionDidChangeAnimated (mapView : MKMapView) (s : ViewController) :
    (s.regionDidChangeAnimated mapView).inFlight = s.inFlight + if s.lookUp then 0 else 1 := by
  cases h : s.lookUp with
  | false =>
    rw [regionDidChangeAnimated_of_clear mapView h]
    simp [ViewController.inFlight,List.countP_append]
  | true => rw [regionDidChangeAnimated_of_set mapView h,if_pos rfl,Nat.add_zero]

/-- A completion fills in the reply of an open request, then runs its handler. -/
theorem step_completionHandler {k : ℕ} {order : SetOrder} {reply : Reply}
    (h : s.step (.completionHandler k order reply) = .ok t) :
    ∃ location, s.geocoder[k]? = some ⟨location,none⟩ ∧
      t = { s with geocoder := s.geocoder.set k ⟨location,some reply⟩ }.completionHandler order reply := by
  simp only [ViewController.step] at h
  split at h
  · rename_i location hrequest
    exact ⟨location,hrequest,(Except.ok.inj h).symm⟩
  · cases h

@[simp] theorem geocoder_completionHandler (order : SetOrder) (reply : Reply) (s : ViewController) :
    (s.completionHandler order reply).geocoder = s.geocoder := by
  cases reply <;> rfl

theorem inFlight_completionHandler {k : ℕ} {order : SetOrder} {reply : Reply}
    (h : s.step (.completionHandler k order reply) = .ok t) : t.inFlight+1 = s.inFlight := by
  obtain ⟨location,hrequest,rfl⟩ := step_completionHandler h
  obtain ⟨hk,hopen⟩ := List.getElem?_eq_some_iff.mp hrequest
  have hpos : 0 < s.inFlight := by
    apply List.countP_pos_iff.mpr
    exact ⟨_,List.getElem_mem hk,by rw [hopen]; rfl⟩
  simp only [ViewController.inFlight,geocoder_completionHandler,List.countP_set hk,hopen] at hpos ⊢
  simp only [Option.isNone_none,Option.isNone_some,if_true,Bool.false_eq_true,if_false]
  omega

/-! ### The flag -/

/-- The flag says that a request is in flight, and there is never a second one. -/
def ViewController.FlagMeansInFlight (s : ViewController) : Prop :=
  (s.lookUp = true ↔ s.inFlight = 1) ∧ s.inFlight ≤ 1

def ViewController.NextMoveAsks (s : ViewController) : Prop :=
  s.inFlight = 0 → ∀ mapView, (s.regionDidChangeAnimated mapView).inFlight = 1

def Event.succeeds : Event → Bool
  | .completionHandler _ _ (.error _) => false
  | _ => true

theorem ViewController.FlagMeansInFlight.idle_iff (hs : s.FlagMeansInFlight) :
    s.inFlight = 0 ↔ s.lookUp = false := by
  obtain ⟨hflag,hone⟩ := hs
  rw [← Bool.not_eq_true,hflag]
  omega

theorem flagMeansInFlight_step {e : Event} (hs : s.FlagMeansInFlight) (he : e.succeeds = true)
    (h : s.step e = .ok t) : t.FlagMeansInFlight := by
  have ⟨hflag,hone⟩ := hs
  cases e with
  | regionDidChangeAnimated mapView =>
    obtain rfl := Except.ok.inj h
    cases hlookUp : s.lookUp with
    | true =>
      rw [regionDidChangeAnimated_of_set mapView hlookUp]
      exact ⟨hflag,hone⟩
    | false =>
      have hcount := inFlight_regionDidChangeAnimated mapView s
      simp only [hs.idle_iff.mpr hlookUp,hlookUp,Bool.false_eq_true,if_false] at hcount
      have hset : (s.regionDidChangeAnimated mapView).lookUp = true := by
        rw [regionDidChangeAnimated_of_clear mapView hlookUp]
      have hone' : (s.regionDidChangeAnimated mapView).inFlight = 1 := by omega
      exact ⟨iff_of_true hset hone',hone'.le⟩
  | completionHandler k order reply =>
    have hcount := inFlight_completionHandler h
    obtain ⟨location,_,rfl⟩ := step_completionHandler h
    cases reply with
    | error description => cases he
    | placemarks placemarks =>
      refine ⟨⟨fun hset => ?_,fun hflight => ?_⟩,by omega⟩
      · cases hset
      · omega

/-- In every state of the run the flag means a request in flight, and the next move asks
if there is none. -/
def MeetsFlagContract (s : ViewController) (es : List Event) : Prop :=
  ∀ before after t, es = before++after → run ViewController.step s before = .ok t →
    t.FlagMeansInFlight ∧ t.NextMoveAsks

theorem flagMeansInFlight_viewDidLoad (pinIcon : CGRect) :
    (viewDidLoad pinIcon).FlagMeansInFlight := by
  constructor
  · simp [viewDidLoad,ViewController.inFlight]
  · exact Nat.zero_le 1

theorem flagMeansInFlight_run {es : List Event} (hes : ∀ e ∈ es, e.succeeds = true)
    (hrun : run ViewController.step (viewDidLoad pinIcon) es = .ok t) : t.FlagMeansInFlight :=
  run_invariant_of_mem (fun e he _ _ hs => flagMeansInFlight_step hs (hes e he))
    (flagMeansInFlight_viewDidLoad pinIcon) hrun

theorem ViewController.FlagMeansInFlight.nextMoveAsks (hs : s.FlagMeansInFlight) :
    s.NextMoveAsks := by
  intro hidle mapView
  rw [inFlight_regionDidChangeAnimated,hidle,hs.idle_iff.mp hidle]
  rfl

theorem flag_stuck_of_error {k : ℕ} {order : SetOrder} {description : String}
    (hs : s.FlagMeansInFlight) (h : s.step (.completionHandler k order (.error description)) = .ok t) :
    t.lookUp = true ∧ t.inFlight = 0 := by
  have hcount := inFlight_completionHandler h
  have hone : s.inFlight = 1 := by
    have := hs.2
    omega
  obtain ⟨location,_,rfl⟩ := step_completionHandler h
  exact ⟨hs.1.mpr hone,by omega⟩

theorem flag_stuck_run {es : List Event} (hs : s.lookUp = true ∧ s.inFlight = 0)
    (hrun : run ViewController.step s es = .ok t) :
    t.lookUp = true ∧ t.inFlight = 0 ∧ t.geocoder = s.geocoder := by
  have hstep : ∀ e u v, (u.lookUp = true ∧ u.inFlight = 0 ∧ u.geocoder = s.geocoder) →
      ViewController.step u e = .ok v → v.lookUp = true ∧ v.inFlight = 0 ∧ v.geocoder = s.geocoder := by
    intro e u v hu hv
    cases e with
    | regionDidChangeAnimated mapView =>
      obtain rfl := Except.ok.inj hv
      rw [regionDidChangeAnimated_of_set mapView hu.1]
      exact hu
    | completionHandler k order reply =>
      have hcount := inFlight_completionHandler hv
      omega
  exact run_invariant hstep ⟨hs.1,hs.2,rfl⟩ hrun

/-- The flag means a request in flight in every state of a run exactly if no completion of
the run carries an error. -/
theorem flag_contract_iff {es : List Event}
    (hrun : run ViewController.step (viewDidLoad pinIcon) es = .ok t) :
    MeetsFlagContract (viewDidLoad pinIcon) es ↔ ∀ e ∈ es, e.succeeds = true := by
  constructor
  · intro hmeets e he
    obtain ⟨before,after,rfl⟩ := List.append_of_mem he
    obtain ⟨u,hu,hrest⟩ := run_append_eq_ok.mp hrun
    obtain ⟨v,hv,_⟩ := run_cons_eq_ok.mp hrest
    have hflagU := (hmeets before (e::after) u rfl hu).1
    have hflagV := (hmeets (before++[e]) after v (by simp) (run_concat_eq_ok.mpr ⟨u,hu,hv⟩)).1
    cases e with
    | regionDidChangeAnimated mapView => rfl
    | completionHandler k order reply =>
      cases reply with
      | placemarks placemarks => rfl
      | error description =>
        obtain ⟨hset,hnone⟩ := flag_stuck_of_error hflagU hv
        have := hflagV.1.mp hset
        omega
  · rintro hes before after u rfl hu
    have hflag := flagMeansInFlight_run (fun e he => hes e (List.mem_append_left after he)) hu
    exact ⟨hflag,hflag.nextMoveAsks⟩

def mapOf (latitude longitude : ℚ) : MKMapView := ⟨fun _ => ⟨latitude,longitude⟩⟩

def sorted : SetOrder where
  allObjects s := s.sort (· ≤ ·)
  nodup s := s.sort_nodup _
  mem s _ := Finset.mem_sort (s := s) _

def moscow : CLPlacemark := ⟨some "Red Square",some "Moscow",some "Russia",none⟩

def pin : CGRect := ⟨0,0,100,100⟩

def moveTwice : List Event :=
  [.regionDidChangeAnimated (mapOf 55 37),.completionHandler 0 sorted (.placemarks [moscow]),
    .regionDidChangeAnimated (mapOf 48 2)]

theorem flag_contract_moveTwice : ∃ t,
    run ViewController.step (viewDidLoad pin) moveTwice = .ok t ∧
      MeetsFlagContract (viewDidLoad pin) moveTwice := by
  refine ⟨_,rfl,?_⟩
  exact (flag_contract_iff (show run ViewController.step (viewDidLoad pin) moveTwice = .ok _ from rfl)).mpr
    (by simp [moveTwice,Event.succeeds])

def failOnce : List Event :=
  [.regionDidChangeAnimated (mapOf 55 37),
    .completionHandler 0 sorted (.error "The network connection was lost."),
    .regionDidChangeAnimated (mapOf 48 2)]

/-- After the error the flag is set although nothing is in flight, and the move asks nothing. -/
theorem flag_stuck_failOnce : ∃ t,
    run ViewController.step (viewDidLoad pin) failOnce = .ok t ∧
      t.lookUp = true ∧ t.inFlight = 0 ∧ t.geocoder.length = 1 :=
  ⟨_,rfl,rfl,rfl,rfl⟩

/-! ### The label -/

def Event.isMove : Event → Bool
  | .regionDidChangeAnimated _ => true
  | _ => false

def UILabel.Shows (label : UILabel) (placemarks : List CLPlacemark) : Prop :=
  ∃ descriptions : List String, descriptions.Nodup ∧
    (∀ x, x ∈ descriptions ↔ x ∈ mappedPlaceDescriptions placemarks) ∧
    label.text = some ("\n".intercalate descriptions)

/-- The run came to `u` with nothing in flight, and the map was moved there; every later
move came while a request was in flight. -/
structure LastIdleMove (s : ViewController) (es : List Event) (u : ViewController)
    (mapView : MKMapView) : Prop where
  idle : u.inFlight = 0
  split : ∃ before after, es = before++.regionDidChangeAnimated mapView::after ∧
    run ViewController.step s before = .ok u ∧
    Along ViewController.step (fun v e => e.isMove = true → v.inFlight ≠ 0)
      (u.regionDidChangeAnimated mapView) after

def requestAt (u : ViewController) (mapView : MKMapView) (reply : Option Reply) : Request :=
  let coord := u.locationAtTheCenterOfMapView mapView
  ⟨⟨coord.latitude,coord.longitude⟩,reply⟩

/-- Either nothing was asked yet, or the last question is the one of the last idle move,
and the label shows its answer once it is there. -/
def Follows (s : ViewController) (es : List Event) (t : ViewController) : Prop :=
  (t.geocoder = [] ∧ t.lookUp = false ∧ ∀ e ∈ es, e.isMove = false) ∨
    ∃ u mapView, LastIdleMove s es u mapView ∧
      ((t.geocoder = u.geocoder++[requestAt u mapView none] ∧ t.lookUp = true) ∨
        ∃ placemarks, t.geocoder = u.geocoder++[requestAt u mapView (some (.placemarks placemarks))] ∧
          t.lookUp = false ∧ t.mapLabel.Shows placemarks)

theorem LastIdleMove.concat {es : List Event} {u : ViewController} {mapView : MKMapView} {e : Event}
    (h : LastIdleMove s es u mapView) (hrun : run ViewController.step s es = .ok t)
    (he : e.isMove = true → t.inFlight ≠ 0) : LastIdleMove s (es++[e]) u mapView := by
  obtain ⟨hidle,before,after,rfl,hbefore,halong⟩ := h
  refine ⟨hidle,before,after++[e],by simp,hbefore,along_concat.mpr ⟨halong,fun v hv => ?_⟩⟩
  have hrest : run ViewController.step u (.regionDidChangeAnimated mapView::after) = .ok v :=
    run_cons_eq_ok.mpr ⟨_,rfl,hv⟩
  have ht := run_append_eq_ok.mpr ⟨u,hbefore,hrest⟩
  obtain rfl := Except.ok.inj (hrun.symm.trans ht)
  exact he

theorem inFlight_ne_zero_of_open {k : ℕ} {location : CLLocation}
    (h : s.geocoder[k]? = some ⟨location,none⟩) : s.inFlight ≠ 0 := by
  intro hidle
  exact inFlight_eq_zero.mp hidle ⟨location,none⟩ (List.mem_of_getElem? h) rfl

/-- After an idle state the only open request is the one started there. -/
theorem complete_last {u : ViewController} (hidle : u.inFlight = 0) {r : Request} {k : ℕ}
    {location : CLLocation} (reply : Option Reply)
    (hgeocoder : s.geocoder = u.geocoder++[r]) (hk : s.geocoder[k]? = some ⟨location,none⟩) :
    r = ⟨location,none⟩ ∧ s.geocoder.set k ⟨location,reply⟩ = u.geocoder++[⟨location,reply⟩] := by
  rw [hgeocoder] at hk ⊢
  rcases Nat.lt_or_ge k u.geocoder.length with hlt | hge
  · rw [List.getElem?_append_left hlt] at hk
    exact absurd hidle (inFlight_ne_zero_of_open hk)
  · rw [List.getElem?_append_right hge,List.getElem?_singleton] at hk
    split_ifs at hk with hzero
    refine ⟨Option.some.inj hk,?_⟩
    rw [List.set_append_right k _ hge,hzero]
    rfl

theorem follows_move {es : List Event} {mapView : MKMapView} (hfollows : Follows s es t)
    (hflag : t.FlagMeansInFlight) (hrun : run ViewController.step s es = .ok t) :
    Follows s (es++[.regionDidChangeAnimated mapView]) (t.regionDidChangeAnimated mapView) := by
  cases hlookUp : t.lookUp with
  | false =>
    have hidle : t.inFlight = 0 := hflag.idle_iff.mpr hlookUp
    refine Or.inr ⟨t,mapView,⟨hidle,es,[],rfl,hrun,along_nil _⟩,Or.inl ?_⟩
    rw [regionDidChangeAnimated_of_clear mapView hlookUp]
    exact ⟨rfl,rfl⟩
  | true =>
    have hbusy : t.inFlight ≠ 0 := by
      have := hflag.1.mp hlookUp
      omega
    rw [regionDidChangeAnimated_of_set mapView hlookUp]
    rcases hfollows with ⟨_,hclear,_⟩ | ⟨u,map,hlast,⟨hopen,_⟩ | ⟨_,_,hclear,_⟩⟩
    · cases hlookUp.symm.trans hclear
    · exact Or.inr ⟨u,map,hlast.concat hrun fun _ => hbusy,Or.inl ⟨hopen,hlookUp⟩⟩
    · cases hlookUp.symm.trans hclear

theorem follows_completion {es : List Event} {t' : ViewController} {k : ℕ} {order : SetOrder}
    {placemarks : List CLPlacemark} (hfollows : Follows s es t) (hflag : t.FlagMeansInFlight)
    (hrun : run ViewController.step s es = .ok t)
    (h : t.step (.completionHandler k order (.placemarks placemarks)) = .ok t') :
    Follows s (es++[.completionHandler k order (.placemarks placemarks)]) t' := by
  obtain ⟨location,hrequest,rfl⟩ := step_completionHandler h
  rcases hfollows with ⟨hnone,_,_⟩ | ⟨u,map,hlast,⟨hopen,_⟩ | ⟨_,_,hclear,_⟩⟩
  · rw [hnone] at hrequest
    cases hrequest
  · obtain ⟨hlocation,hset⟩ := complete_last hlast.idle (some (.placemarks placemarks)) hopen
      hrequest
    have hstill := hlast.concat (e := .completionHandler k order (.placemarks placemarks)) hrun
      fun hmove => by cases hmove
    refine Or.inr ⟨u,map,hstill,Or.inr ⟨placemarks,?_,rfl,?_⟩⟩
    · obtain rfl := congrArg Request.location hlocation
      exact hset
    · exact ⟨order.allObjects _,order.nodup _,order.mem _,rfl⟩
  · exact absurd (hflag.idle_iff.mpr hclear) (inFlight_ne_zero_of_open hrequest)

theorem follows_run {es : List Event} (hes : ∀ e ∈ es, e.succeeds = true)
    (hrun : run ViewController.step (viewDidLoad pinIcon) es = .ok t) :
    Follows (viewDidLoad pinIcon) es t := by
  induction es using List.reverseRecOn generalizing t with
  | nil =>
    obtain rfl := Except.ok.inj hrun
    exact Or.inl ⟨rfl,rfl,by simp⟩
  | append_singleton es e ih =>
    obtain ⟨u,hu,h⟩ := run_concat_eq_ok.mp hrun
    have hes' : ∀ e ∈ es, e.succeeds = true := fun e he => hes e (List.mem_append_left _ he)
    have hflag := flagMeansInFlight_run hes' hu
    have hfollows := ih hes' hu
    cases e with
    | regionDidChangeAnimated mapView =>
      obtain rfl := Except.ok.inj h
      exact follows_move hfollows hflag hu
    | completionHandler k order reply =>
      cases reply with
      | placemarks placemarks => exact follows_completion hfollows hflag hu h
      | error description =>
        have := hes (.completionHandler k order (.error description)) (by simp)
        cases this

/-- In a run without errors, whenever nothing is in flight after a move, the label shows
what was returned for the place read at the last move that came with nothing in flight. -/
theorem label_follows_last_idle_move {es : List Event} (hes : ∀ e ∈ es, e.succeeds = true)
    (hrun : run ViewController.step (viewDidLoad pinIcon) es = .ok t)
    (hmoved : ∃ e ∈ es, e.isMove = true) (hidle : t.inFlight = 0) :
    ∃ u mapView placemarks, LastIdleMove (viewDidLoad pinIcon) es u mapView ∧
      t.geocoder = u.geocoder++[requestAt u mapView (some (.placemarks placemarks))] ∧
      t.mapLabel.Shows placemarks := by
  rcases follows_run hes hrun with ⟨_,_,hnone⟩ | ⟨u,map,hlast,⟨_,hset⟩ | ⟨placemarks,hdone,_,hshows⟩⟩
  · obtain ⟨e,he,hmove⟩ := hmoved
    simp [hnone e he] at hmove
  · cases hset.symm.trans ((flagMeansInFlight_run hes hrun).idle_iff.mp hidle)
  · exact ⟨u,map,placemarks,hlast,hdone,hshows⟩

def moveDuring : List Event :=
  [.regionDidChangeAnimated (mapOf 55 37),.regionDidChangeAnimated (mapOf 48 2),
    .completionHandler 0 sorted (.placemarks [moscow])]

theorem label_follows_moveDuring : ∃ t,
    run ViewController.step (viewDidLoad pin) moveDuring = .ok t ∧
      ∃ u mapView placemarks, LastIdleMove (viewDidLoad pin) moveDuring u mapView ∧
        t.geocoder = u.geocoder++[requestAt u mapView (some (.placemarks placemarks))] ∧
        t.mapLabel.Shows placemarks := by
  refine ⟨_,rfl,?_⟩
  exact label_follows_last_idle_move (by simp [moveDuring,Event.succeeds])
    (show run ViewController.step (viewDidLoad pin) moveDuring = .ok _ from rfl)
    ⟨.regionDidChangeAnimated (mapOf 55 37),by simp [moveDuring],rfl⟩ rfl

/-- The constraints put the middle of the pin on the middle of the map. -/
def centerCoordinate (pinIcon : CGRect) (mapView : MKMapView) : CLLocation :=
  let coord := mapView.convertPoint ⟨pinIcon.x+pinIcon.width/2,pinIcon.y+pinIcon.height/2⟩
  ⟨coord.latitude,coord.longitude⟩

def ShowsLastMove (es : List Event) (t : ViewController) : Prop :=
  ∀ before mapView after, es = before++.regionDidChangeAnimated mapView::after →
    (∀ e ∈ after, e.isMove = false) →
      ∃ r ∈ t.geocoder, r.location = centerCoordinate t.pinIcon mapView ∧
        ∃ placemarks, r.reply = some (.placemarks placemarks) ∧ t.mapLabel.Shows placemarks

/-- Nothing is in flight, yet nobody ever asked about the centre of the last move. -/
theorem move_lost : ∃ t, run ViewController.step (viewDidLoad pin) moveDuring = .ok t ∧
    t.inFlight = 0 ∧ ¬ ShowsLastMove moveDuring t := by
  refine ⟨_,rfl,rfl,?_⟩
  intro hshows
  obtain ⟨r,hr,hlocation,_⟩ := hshows [.regionDidChangeAnimated (mapOf 55 37)] (mapOf 48 2)
    [.completionHandler 0 sorted (.placemarks [moscow])] rfl (by simp [Event.isMove])
  obtain rfl := List.mem_singleton.mp hr
  have hlatitude : (55 : ℚ) = 48 := congrArg CLLocation.latitude hlocation
  exact absurd hlatitude (by decide)

end ReverseGeocode
end CourseraObjC
