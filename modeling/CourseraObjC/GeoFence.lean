import CourseraObjC.Runs
import Mathlib.Data.List.Basic

/-! A fence around a place. The switch that puts it up is enabled when the screen is loaded or
when the user grants the location; nothing disables it again. -/
namespace CourseraObjC
namespace GeoFenceDemo01

open Runs

inductive CLAuthorizationStatus
  | kCLAuthorizationStatusNotDetermined
  | kCLAuthorizationStatusRestricted
  | kCLAuthorizationStatusDenied
  | kCLAuthorizationStatusAuthorizedAlways
  | kCLAuthorizationStatusAuthorizedWhenInUse
  deriving DecidableEq

open CLAuthorizationStatus

inductive CLRegionState
  | CLRegionStateUnknown | CLRegionStateInside | CLRegionStateOutside
  deriving DecidableEq

/-- What the device says of itself: whether it can watch regions at all, and what the user
allows at the moment. -/
structure CLLocationManager where
  isMonitoringAvailable : Bool
  authorizationStatus : CLAuthorizationStatus
  deriving DecidableEq

/-- `starts` is what the device said whenever the watching of the region was started. -/
structure ViewController (κ : Type*) where
  device : CLLocationManager
  uiSwitchEnabled : Bool
  uiSwitchIsOn : Bool
  statusLabel : String
  eventLabel : String
  mapIsMoving : Bool
  showsUserLocation : Bool
  updatingLocation : Bool
  currentAnnotation : κ
  mapCenter : κ
  askedAlways : Bool
  starts : List CLLocationManager
  notifications : List String

/-- The authorization changes and the delegate is told so; it is told of the one it has, too,
when the manager is new. -/
inductive Event (κ : Type*)
  | didChangeAuthorizationStatus (status : CLAuthorizationStatus)
  | switchTapped
  | checkStatusTapped
  | regionWillChangeAnimated
  | regionDidChangeAnimated
  | didUpdateLocations (locations : List κ)
  | didDetermineState (state : CLRegionState)
  | didEnterRegion
  | didExitRegion

/-- A tap on a switch that is not enabled. -/
inductive Impossible
  | impossible
  deriving DecidableEq

def authorized (status : CLAuthorizationStatus) : Bool :=
  status = kCLAuthorizationStatusAuthorizedWhenInUse || status = kCLAuthorizationStatusAuthorizedAlways

def CLLocationManager.CanMonitor (device : CLLocationManager) : Prop :=
  device.isMonitoringAvailable = true ∧ authorized device.authorizationStatus = true

instance (device : CLLocationManager) : Decidable device.CanMonitor :=
  inferInstanceAs (Decidable (_ ∧ _))

namespace ViewController

variable {κ : Type*}

def viewDidLoad (s : ViewController κ) : ViewController κ :=
  let s := { s with uiSwitchEnabled := false }
  let s := { s with eventLabel := "", statusLabel := "", mapIsMoving := false }
  if s.device.isMonitoringAvailable then
    if authorized s.device.authorizationStatus then { s with uiSwitchEnabled := true }
    else { s with askedAlways := true }
  else { s with statusLabel := "GeoRegions not supported" }

def launch (device : CLLocationManager) (origin : κ) : ViewController κ :=
  viewDidLoad
    { device := device
      uiSwitchEnabled := true
      uiSwitchIsOn := false
      statusLabel := "Outside"
      eventLabel := "Event"
      mapIsMoving := false
      showsUserLocation := false
      updatingLocation := false
      currentAnnotation := origin
      mapCenter := origin
      askedAlways := false
      starts := []
      notifications := [] }

def didChangeAuthorizationStatus (s : ViewController κ) : ViewController κ :=
  let currentStatus := s.device.authorizationStatus
  if authorized currentStatus then { s with uiSwitchEnabled := true } else s

def startMonitoringForRegion (s : ViewController κ) : ViewController κ :=
  { s with starts := s.starts++[s.device] }

def switchTapped (s : ViewController κ) : ViewController κ :=
  if s.uiSwitchIsOn then
    let s := { s with showsUserLocation := true, updatingLocation := true }
    s.startMonitoringForRegion
  else { s with updatingLocation := false, showsUserLocation := false }

def didDetermineState (state : CLRegionState) (s : ViewController κ) : ViewController κ :=
  match state with
  | .CLRegionStateUnknown => { s with statusLabel := "Unknown" }
  | .CLRegionStateInside => { s with statusLabel := "Inside" }
  | .CLRegionStateOutside => { s with statusLabel := "Outside" }

/-- Without a location the annotation is put to where the coordinates are zero. -/
def didUpdateLocations (origin : κ) (locations : List κ) (s : ViewController κ) : ViewController κ :=
  let s := { s with currentAnnotation := locations.getLast?.getD origin }
  if s.mapIsMoving then s else { s with mapCenter := s.currentAnnotation }

def didEnterRegion (s : ViewController κ) : ViewController κ :=
  { s with notifications := s.notifications++["You've entered the geofence"], eventLabel := "Entered" }

def didExitRegion (s : ViewController κ) : ViewController κ :=
  { s with notifications := s.notifications++["You've left the geofence"], eventLabel := "Exited" }

def possible (s : ViewController κ) : Event κ → Bool
  | .switchTapped => s.uiSwitchEnabled
  | _ => true

/-- A check asks for the region's state, and the answer comes as an event of its own; a tap
turns the switch before its action is called. -/
def react (origin : κ) (s : ViewController κ) : Event κ → ViewController κ
  | .didChangeAuthorizationStatus status =>
    didChangeAuthorizationStatus { s with device := { s.device with authorizationStatus := status } }
  | .switchTapped => switchTapped { s with uiSwitchIsOn := !s.uiSwitchIsOn }
  | .checkStatusTapped => s
  | .regionWillChangeAnimated => { s with mapIsMoving := true }
  | .regionDidChangeAnimated => { s with mapIsMoving := false }
  | .didUpdateLocations locations => s.didUpdateLocations origin locations
  | .didDetermineState state => s.didDetermineState state
  | .didEnterRegion => s.didEnterRegion
  | .didExitRegion => s.didExitRegion

def step (origin : κ) (s : ViewController κ) (e : Event κ) : Except Impossible (ViewController κ) :=
  if s.possible e then .ok (s.react origin e) else .error .impossible

def OffersOnlyWorking (s : ViewController κ) : Prop := s.uiSwitchEnabled = true → s.device.CanMonitor

end ViewController

def statuses {κ : Type*} : List (Event κ) → List CLAuthorizationStatus
  | [] => []
  | .didChangeAuthorizationStatus status::es => status::statuses es
  | _::es => statuses es

variable {κ : Type*} {origin : κ} {device : CLLocationManager} {s t : ViewController κ}

/-- As the authorization changes, the switch once enabled stays so. -/
def Offerable (isMonitoringAvailable : Bool) : Bool → List CLAuthorizationStatus → Prop
  | _, [] => True
  | enabled, status::sts =>
    (if authorized status then isMonitoringAvailable = true else enabled = false) ∧
      Offerable isMonitoringAvailable (enabled || authorized status) sts

theorem offerable_of_available (enabled : Bool) (sts : List CLAuthorizationStatus) :
    Offerable true enabled sts ↔
      (enabled = true → ∀ status ∈ sts, authorized status = true) ∧
        sts.Pairwise fun a b => authorized a = true → authorized b = true := by
  induction sts generalizing enabled with
  | nil => simp [Offerable]
  | cons status sts ih =>
    rw [Offerable,ih,List.pairwise_cons]
    cases hstatus : authorized status <;> cases enabled <;> simp [hstatus]

theorem offerable_of_unavailable (sts : List CLAuthorizationStatus) :
    Offerable false false sts ↔ ∀ status ∈ sts, authorized status = false := by
  induction sts with
  | nil => simp [Offerable]
  | cons status sts ih =>
    rw [Offerable]
    cases hstatus : authorized status
    · simpa [hstatus] using ih
    · simp [hstatus]

/-! ### Steps -/

theorem step_eq_ok {e : Event κ} :
    s.step origin e = .ok t ↔ s.possible e = true ∧ t = s.react origin e :=
  guard_eq_ok

/-- Only a change of the authorization changes what the device says or enables the switch, and
only a tap on the enabled switch starts the watching. -/
theorem react_frame (origin : κ) {e : Event κ} (hpossible : s.possible e = true)
    (he : statuses [e] = []) :
    (s.react origin e).device = s.device ∧
      (s.react origin e).uiSwitchEnabled = s.uiSwitchEnabled ∧
      ((s.react origin e).starts = s.starts ∨
        s.uiSwitchEnabled = true ∧ (s.react origin e).starts = s.starts++[s.device]) := by
  cases e with
  | didChangeAuthorizationStatus status => cases he
  | switchTapped =>
    rw [ViewController.react,ViewController.switchTapped]
    split_ifs
    · exact ⟨rfl,rfl,.inr ⟨hpossible,rfl⟩⟩
    · exact ⟨rfl,rfl,.inl rfl⟩
  | didUpdateLocations locations =>
    rw [ViewController.react,ViewController.didUpdateLocations]
    split_ifs <;> exact ⟨rfl,rfl,.inl rfl⟩
  | didDetermineState state => cases state <;> exact ⟨rfl,rfl,.inl rfl⟩
  | _ => exact ⟨rfl,rfl,.inl rfl⟩

theorem react_change (origin : κ) (s : ViewController κ) (status : CLAuthorizationStatus) :
    s.react origin (.didChangeAuthorizationStatus status) =
      { s with
        device := { s.device with authorizationStatus := status }
        uiSwitchEnabled := s.uiSwitchEnabled || authorized status } := by
  rw [ViewController.react,ViewController.didChangeAuthorizationStatus]
  cases hstatus : authorized status <;> simp

theorem starts_step {e : Event κ} (h : s.step origin e = .ok t) :
    t.starts = s.starts ∨ s.uiSwitchEnabled = true ∧ t.starts = s.starts++[s.device] := by
  obtain ⟨hpossible,rfl⟩ := step_eq_ok.mp h
  by_cases he : statuses [e] = []
  · exact (react_frame origin hpossible he).2.2
  · cases e with
    | didChangeAuthorizationStatus status =>
      rw [react_change]
      exact .inl rfl
    | _ => exact absurd rfl he

theorem offers_change_iff (s : ViewController κ) (status : CLAuthorizationStatus) :
    (s.react origin (.didChangeAuthorizationStatus status)).OffersOnlyWorking ↔
      if authorized status then s.device.isMonitoringAvailable = true
      else s.uiSwitchEnabled = false := by
  rw [ViewController.OffersOnlyWorking,react_change]
  cases hstatus : authorized status
  · simp [CLLocationManager.CanMonitor,hstatus]
  · simp [CLLocationManager.CanMonitor,hstatus]

/-! ### Runs -/

theorem offers_run_iff {es : List (Event κ)} (hrun : run (ViewController.step origin) s es = .ok t) :
    Always (ViewController.step origin) ViewController.OffersOnlyWorking s es ↔
      s.OffersOnlyWorking ∧
        Offerable s.device.isMonitoringAvailable s.uiSwitchEnabled (statuses es) := by
  induction es generalizing s with
  | nil => simp [Always,statuses,Offerable]
  | cons e es ih =>
    obtain ⟨a,ha,hrest⟩ := run_cons_eq_ok.mp hrun
    rw [Always,forall_ok_iff ha,ih hrest]
    obtain ⟨hpossible,rfl⟩ := step_eq_ok.mp ha
    apply and_congr_right
    intro hs
    by_cases he : statuses [e] = []
    · obtain ⟨hdevice,henabled,_⟩ := react_frame origin hpossible he
      have hstatuses : statuses (e::es) = statuses es := by
        cases e with
        | didChangeAuthorizationStatus status => cases he
        | _ => rfl
      rw [ViewController.OffersOnlyWorking,hdevice,henabled,hstatuses]
      exact and_iff_right hs
    · cases e with
      | didChangeAuthorizationStatus status =>
        rw [offers_change_iff s,react_change]
        rfl
      | _ => exact absurd rfl he

theorem starts_run {es : List (Event κ)} (hrun : run (ViewController.step origin) s es = .ok t)
    (halways : Always (ViewController.step origin) ViewController.OffersOnlyWorking s es)
    (hs : ∀ start ∈ s.starts, start.CanMonitor) : ∀ start ∈ t.starts, start.CanMonitor := by
  refine run_invariant_of_always (I := fun s => ∀ start ∈ s.starts, start.CanMonitor) ?_
    halways hs hrun
  intro e s t hoffers hs h
  rcases starts_step h with heq | ⟨henabled,heq⟩
  · rw [heq]
    exact hs
  · rw [heq]
    intro start hstart
    rcases List.mem_append.mp hstart with hold | hnew
    · exact hs start hold
    · obtain rfl := List.mem_singleton.mp hnew
      exact hoffers henabled

theorem launch_eq (device : CLLocationManager) (origin : κ) :
    (ViewController.launch device origin).device = device ∧
      (ViewController.launch device origin).uiSwitchEnabled =
        (device.isMonitoringAvailable && authorized device.authorizationStatus) ∧
      (ViewController.launch device origin).starts = [] := by
  rw [ViewController.launch,ViewController.viewDidLoad]
  cases hdevice : device.isMonitoringAvailable
  · simp
  · cases hstatus : authorized device.authorizationStatus <;> simp

/-- From a launch on the fence is offered and put up only where it can work exactly if, on a
device that can watch regions, no status follows a granted one that is not granted, and, on
any other, the manager is told of no granted status. -/
theorem fence_offered_iff {es : List (Event κ)}
    (hrun : run (ViewController.step origin) (.launch device origin) es = .ok t) :
    (Always (ViewController.step origin) ViewController.OffersOnlyWorking (.launch device origin) es ∧
      ∀ start ∈ t.starts, start.CanMonitor) ↔
      if device.isMonitoringAvailable then
        (device.authorizationStatus::statuses es).Pairwise
          fun a b => authorized a = true → authorized b = true
      else ∀ status ∈ statuses es, authorized status = false := by
  obtain ⟨hdevice,henabled,hstarts⟩ := launch_eq device origin
  have hlaunch : (ViewController.launch device origin).OffersOnlyWorking := by
    rw [ViewController.OffersOnlyWorking,hdevice,henabled]
    simp [CLLocationManager.CanMonitor]
  have hnone : ∀ start ∈ (ViewController.launch device origin).starts, start.CanMonitor := by
    simp [hstarts]
  rw [and_iff_left_of_imp fun halways => starts_run hrun halways hnone,offers_run_iff hrun,
    and_iff_right hlaunch,hdevice,henabled]
  cases havailable : device.isMonitoringAvailable
  · simpa using offerable_of_unavailable (statuses es)
  · simp only [Bool.true_and,if_true,offerable_of_available,List.pairwise_cons]
    apply and_congr_left'
    exact ⟨fun h status hmem hgranted => h hgranted status hmem,
      fun h hgranted status hmem => h status hmem hgranted⟩

def grant : List (Event ℕ) :=
  [.didChangeAuthorizationStatus kCLAuthorizationStatusNotDetermined,
    .didChangeAuthorizationStatus kCLAuthorizationStatusAuthorizedAlways,.switchTapped,
    .didUpdateLocations [1,2]]

theorem fence_offered_grant : ∃ t,
    run (ViewController.step 0) (.launch ⟨true,kCLAuthorizationStatusNotDetermined⟩ 0) grant = .ok t ∧
      Always (ViewController.step 0) ViewController.OffersOnlyWorking
        (.launch ⟨true,kCLAuthorizationStatusNotDetermined⟩ 0) grant ∧
      ∀ start ∈ t.starts, start.CanMonitor := by
  refine ⟨_,rfl,?_⟩
  exact (fence_offered_iff (show run (ViewController.step 0)
    (.launch ⟨true,kCLAuthorizationStatusNotDetermined⟩ 0) grant = .ok _ from rfl)).mpr (by decide)

/-- The location is revoked, the switch stays enabled, and a tap starts the watching. -/
theorem fence_offered_after_revocation : ∃ t,
    run (ViewController.step 0) (.launch ⟨true,kCLAuthorizationStatusAuthorizedAlways⟩ 0)
        [.didChangeAuthorizationStatus kCLAuthorizationStatusDenied,.switchTapped] = .ok t ∧
      ¬ t.OffersOnlyWorking ∧ ∃ start ∈ t.starts, ¬ start.CanMonitor := by
  refine ⟨_,rfl,fun h => ?_,by decide⟩
  exact absurd (h rfl) (by decide)

end GeoFenceDemo01
end CourseraObjC
