import CourseraObjC.Runs
import Mathlib.Data.List.Induction
import Mathlib.Data.List.Nodup
import Mathlib.Data.Option.Basic
import Mathlib.Logic.Function.Basic
import Mathlib.Order.Lattice

/-! Touches on a screen that takes several at a time. A touch begins once, may move, and
ends or is cancelled once; one event may report several touches. A view keeps a touch in a
slot and learns from the events when to fill and when to empty it. -/
namespace CourseraObjC
namespace Touches

open Runs

/-! ### Places in a scene -/

structure CGPoint (K : Type*) where
  x : K
  y : K
  deriving DecidableEq

structure CGRect (K : Type*) where
  x : K
  y : K
  width : K
  height : K

structure CGVector (K : Type*) where
  dx : K
  dy : K

/-- The left and lower edges belong to a rectangle, the right and upper ones do not. -/
def CGRectContainsPoint {K : Type*} [Add K] [LinearOrder K] (rect : CGRect K) (point : CGPoint K) :
    Bool :=
  rect.x ≤ point.x ∧ point.x < rect.x+rect.width ∧ rect.y ≤ point.y ∧ point.y < rect.y+rect.height

/-! ### Events -/

inductive TouchEvent (τ π : Type*)
  | began (touches : List (τ × π))
  | moved (touches : List (τ × π))
  | ended (touches : List (τ × π))
  | cancelled (touches : List (τ × π))
  deriving DecidableEq

variable {τ π : Type*}

namespace TouchEvent

def touches : TouchEvent τ π → List (τ × π)
  | began touches => touches
  | moved touches => touches
  | ended touches => touches
  | cancelled touches => touches

def begins : TouchEvent τ π → List (τ × π)
  | began touches => touches
  | _ => []

def lifts : TouchEvent τ π → List τ
  | ended touches => touches.map Prod.fst
  | cancelled touches => touches.map Prod.fst
  | _ => []

end TouchEvent

/-- Every touch that ever began, with its first place and in order, the touches that were
lifted, and where each touch is now. -/
structure Screen (τ π : Type*) where
  begun : List (τ × π)
  lifted : List τ
  location : τ → π
  once : (begun.map Prod.fst).Nodup
  lifted_begun : lifted ⊆ begun.map Prod.fst

/-- A touch that began before, or one that is not down. -/
inductive Impossible
  | impossible
  deriving DecidableEq

def containsObject [DecidableEq τ] (touches : List τ) : Option τ → Bool
  | none => false
  | some touch => touch ∈ touches

@[simp] theorem containsObject_nil [DecidableEq τ] (slot : Option τ) :
    containsObject [] slot = false := by
  cases slot <;> rfl
@[simp] theorem containsObject_none [DecidableEq τ] (touches : List τ) :
    containsObject touches none = false := rfl

namespace Screen

def empty (location : τ → π) : Screen τ π where
  begun := []
  lifted := []
  location := location
  once := List.nodup_nil
  lifted_begun := List.Subset.refl _

def IsDown (screen : Screen τ π) (t : τ) : Prop := t ∈ screen.begun.map Prod.fst ∧ t ∉ screen.lifted

instance [DecidableEq τ] (screen : Screen τ π) (t : τ) : Decidable (screen.IsDown t) :=
  inferInstanceAs (Decidable (_ ∧ _))

/-- Touches begin that never began before; touches move or leave that are down. -/
def Allows (screen : Screen τ π) : TouchEvent τ π → Prop
  | .began touches =>
    (touches.map Prod.fst).Nodup ∧ ∀ t ∈ touches.map Prod.fst, t ∉ screen.begun.map Prod.fst
  | .moved touches => ∀ t ∈ touches.map Prod.fst, screen.IsDown t
  | .ended touches => ∀ t ∈ touches.map Prod.fst, screen.IsDown t
  | .cancelled touches => ∀ t ∈ touches.map Prod.fst, screen.IsDown t

instance [DecidableEq τ] (screen : Screen τ π) : (e : TouchEvent τ π) → Decidable (screen.Allows e)
  | .began _ => inferInstanceAs (Decidable (_ ∧ _))
  | .moved touches => inferInstanceAs (Decidable (∀ t ∈ touches.map Prod.fst, screen.IsDown t))
  | .ended touches => inferInstanceAs (Decidable (∀ t ∈ touches.map Prod.fst, screen.IsDown t))
  | .cancelled touches => inferInstanceAs (Decidable (∀ t ∈ touches.map Prod.fst, screen.IsDown t))

theorem once_of_allows {screen : Screen τ π} {e : TouchEvent τ π} (h : screen.Allows e) :
    ((screen.begun++e.begins).map Prod.fst).Nodup := by
  cases e with
  | began touches =>
    rw [List.map_append]
    exact screen.once.append h.1 fun t ht ht' => h.2 t ht' ht
  | _ => simpa [TouchEvent.begins] using screen.once

theorem lifted_begun_of_allows {screen : Screen τ π} {e : TouchEvent τ π} (h : screen.Allows e) :
    screen.lifted++e.lifts ⊆ (screen.begun++e.begins).map Prod.fst := by
  rw [List.map_append]
  refine List.append_subset.mpr ⟨fun t ht => List.mem_append_left _ (screen.lifted_begun ht),?_⟩
  intro t ht
  apply List.mem_append_left
  cases e with
  | began touches => cases ht
  | moved touches => cases ht
  | ended touches => exact (h t ht).1
  | cancelled touches => exact (h t ht).1

theorem begun_unique {screen : Screen τ π} {t : τ} {p q : π} (hp : (t,p) ∈ screen.begun)
    (hq : (t,q) ∈ screen.begun) : p = q := by
  have hinj := List.inj_on_of_nodup_map screen.once
  exact congrArg Prod.snd (hinj hp hq rfl)

variable [DecidableEq τ]

def place (touches : List (τ × π)) (location : τ → π) : τ → π :=
  touches.foldl (fun location x => Function.update location x.1 x.2) location

def report (screen : Screen τ π) (e : TouchEvent τ π) : Except Impossible (Screen τ π) :=
  if h : screen.Allows e then
    .ok {
      begun := screen.begun++e.begins
      lifted := screen.lifted++e.lifts
      location := place e.touches screen.location
      once := once_of_allows h
      lifted_begun := lifted_begun_of_allows h }
  else .error .impossible

variable {screen screen' : Screen τ π} {e : TouchEvent τ π} {t : τ} {p : π}

theorem place_of_mem {touches : List (τ × π)} (hnodup : (touches.map Prod.fst).Nodup)
    (ht : (t,p) ∈ touches) (location : τ → π) : place touches location t = p := by
  induction touches generalizing location with
  | nil => cases ht
  | cons x touches ih =>
    obtain ⟨hx,hnodup⟩ := List.nodup_cons.mp hnodup
    rcases List.mem_cons.mp ht with rfl | ht
    · have hother : ∀ (touches : List (τ × π)) (location : τ → π), t ∉ touches.map Prod.fst →
          place touches location t = location t := by
        intro touches
        induction touches with
        | nil => exact fun _ _ => rfl
        | cons y touches ih =>
          intro location hy
          obtain ⟨hne,hy⟩ := not_or.mp (mt List.mem_cons.mpr hy)
          exact (ih _ hy).trans (Function.update_of_ne hne _ _)
      exact (hother touches _ hx).trans (Function.update_self _ _ _)
    · exact ih hnodup ht _

theorem report_eq_ok (h : screen.report e = .ok screen') :
    screen.Allows e ∧ screen'.begun = screen.begun++e.begins ∧
      screen'.lifted = screen.lifted++e.lifts ∧
      screen'.location = place e.touches screen.location := by
  unfold report at h
  split_ifs at h with hallows
  obtain rfl := Except.ok.inj h
  exact ⟨hallows,rfl,rfl,rfl⟩

theorem location_of_begins (h : screen.report e = .ok screen') (ht : (t,p) ∈ e.begins) :
    screen'.location t = p := by
  obtain ⟨hallows,_,_,hlocation⟩ := report_eq_ok h
  cases e with
  | began touches =>
    rw [hlocation]
    exact place_of_mem hallows.1 ht _
  | _ => cases ht

theorem isDown_of_begins (h : screen.report e = .ok screen') (ht : (t,p) ∈ e.begins) :
    screen'.IsDown t := by
  obtain ⟨hallows,hbegun,hlifted,_⟩ := report_eq_ok h
  have hmem : t ∈ e.begins.map Prod.fst := List.mem_map.mpr ⟨_,ht,rfl⟩
  refine ⟨by rw [hbegun,List.map_append]; exact List.mem_append_right _ hmem,?_⟩
  rw [hlifted]
  cases e with
  | began touches =>
    intro hold
    rw [List.mem_append] at hold
    rcases hold with hold | hold
    · exact hallows.2 t hmem (screen.lifted_begun hold)
    · cases hold
  | _ => cases ht

theorem isDown_report_iff (h : screen.report e = .ok screen')
    (ht : t ∈ screen.begun.map Prod.fst) :
    screen'.IsDown t ↔ screen.IsDown t ∧ t ∉ e.lifts := by
  obtain ⟨_,hbegun,hlifted,_⟩ := report_eq_ok h
  simp only [IsDown,hbegun,hlifted,List.map_append,List.mem_append,not_or,ht,true_or,true_and]

end Screen

/-! ### A view with its own state -/

variable [DecidableEq τ] {ε α : Type*} (reported : ε → TouchEvent τ π)
  (handle : Screen τ π → ε → α → α)

/-- The screen changes first, the view's handler sees it as it is then. -/
def step (x : Screen τ π × α) (e : ε) : Except Impossible (Screen τ π × α) :=
  match x.1.report (reported e) with
  | .error failure => .error failure
  | .ok screen => .ok (screen,handle screen e x.2)

variable {reported handle} {e : ε} {x y : Screen τ π × α}

theorem step_eq_ok : step reported handle x e = .ok y ↔
    x.1.report (reported e) = .ok y.1 ∧ y.2 = handle y.1 e x.2 := by
  obtain ⟨screen,b⟩ := y
  unfold step
  cases x.1.report (reported e) with
  | error failure => simp
  | ok screen' =>
    simp only [Except.ok.injEq,Prod.mk.injEq]
    constructor
    · rintro ⟨rfl,rfl⟩
      exact ⟨rfl,rfl⟩
    · rintro ⟨rfl,rfl⟩
      exact ⟨rfl,rfl⟩

/-! ### Slots -/

/-- What a slot holds is down and began in the slot's zone. -/
def Holds (zone : π → Prop) (screen : Screen τ π) (slot : Option τ) : Prop :=
  ∀ t, slot = some t → screen.IsDown t ∧ ∃ p, (t,p) ∈ screen.begun ∧ zone p

variable {zone : π → Prop} {screen screen' : Screen τ π} {touch : TouchEvent τ π} {slot : Option τ}
  {t : τ} {p : π}

omit [DecidableEq τ] in
theorem holds_none : Holds zone screen none := by
  intro t ht
  cases ht

theorem holds_of_begins (h : screen.report touch = .ok screen') (ht : (t,p) ∈ touch.begins)
    (hp : zone p) : Holds zone screen' (some t) := by
  rintro t' ⟨rfl⟩
  refine ⟨Screen.isDown_of_begins h ht,p,?_,hp⟩
  rw [(Screen.report_eq_ok h).2.1]
  exact List.mem_append_right _ ht

theorem Holds.report (hs : Holds zone screen slot) (h : screen.report touch = .ok screen')
    (hlifts : ∀ t, slot = some t → t ∉ touch.lifts) : Holds zone screen' slot := by
  intro t ht
  obtain ⟨hdown,p,hbegun,hp⟩ := hs t ht
  refine ⟨(Screen.isDown_report_iff h hdown.1).mpr ⟨hdown,hlifts t ht⟩,p,?_,hp⟩
  rw [(Screen.report_eq_ok h).2.1]
  exact List.mem_append_left _ hbegun

theorem Holds.clear (hs : Holds zone screen slot) (h : screen.report touch = .ok screen') :
    Holds zone screen' (if containsObject touch.lifts slot then none else slot) := by
  split_ifs with hlifted
  · exact holds_none
  · apply hs.report h
    rintro t rfl
    simpa [containsObject] using hlifted

/-! ### The latest touch -/

variable [DecidablePred zone]

def latest (zone : π → Prop) [DecidablePred zone] (touches : List (τ × π)) : Option τ :=
  (touches.filter fun x => zone x.2).getLast?.map Prod.fst

omit [DecidableEq τ] in
theorem latest_append (touches later : List (τ × π)) :
    latest zone (touches++later) = (latest zone later).or (latest zone touches) := by
  rw [latest,List.filter_append,List.getLast?_append,Option.map_or]
  rfl

omit [DecidableEq τ] in
theorem mem_of_latest {touches : List (τ × π)} (h : latest zone touches = some t) :
    ∃ p, (t,p) ∈ touches ∧ zone p := by
  obtain ⟨⟨_,p⟩,hlast,rfl⟩ := Option.map_eq_some_iff.mp h
  obtain ⟨hmem,hp⟩ := List.mem_filter.mp (List.mem_of_getLast? hlast)
  exact ⟨p,hmem,by simpa using hp⟩

omit [DecidableEq τ] zone in
theorem foldl_fill (fill : α → Option τ → α) (slot : α → Option τ)
    (hfill : ∀ x a b, fill (fill x a) b = fill x b) (hslot : ∀ x a, slot (fill x a) = a)
    (hself : ∀ x, fill x (slot x) = x) (p : τ → Prop) [DecidablePred p] (touches : List τ) (x : α) :
    touches.foldl (fun x touch => if p touch then fill x (some touch) else x) x =
      fill x (touches.foldl (fun slot touch => if p touch then some touch else slot) (slot x)) := by
  induction touches generalizing x with
  | nil => exact (hself x).symm
  | cons touch touches ih =>
    rw [List.foldl_cons,List.foldl_cons,ih]
    split_ifs with hp
    · rw [hfill,hslot]
    · rfl

omit [DecidableEq τ] in
/-- Going through the touches of an event and keeping each that is in the zone keeps the last. -/
theorem foldl_keep (touches : List (τ × π)) (slot : Option τ) :
    touches.foldl (fun slot x => if zone x.2 then some x.1 else slot) slot =
      (latest zone touches).or slot := by
  induction touches using List.reverseRecOn with
  | nil => rfl
  | append_singleton touches x ih =>
    rw [List.foldl_concat,ih,latest_append]
    by_cases hx : zone x.2
    · simp [latest,hx]
    · simp [latest,hx]

/-- A slot from which every touch that is lifted is taken keeps what is down. -/
theorem filter_isDown_report (h : screen.report touch = .ok screen')
    (hslot : ∀ t, slot = some t → t ∈ screen.begun.map Prod.fst) :
    (slot.filter fun t => screen'.IsDown t) =
      if containsObject touch.lifts (slot.filter fun t => screen.IsDown t) then none
      else slot.filter fun t => screen.IsDown t := by
  cases slot with
  | none => rfl
  | some t =>
    have hdown := Screen.isDown_report_iff h (hslot t rfl)
    by_cases hold : screen.IsDown t
    · by_cases hlifted : t ∈ touch.lifts
      · simp [hdown,hold,hlifted,containsObject,Option.filter]
      · simp [hdown,hold,hlifted,containsObject,Option.filter]
    · simp [hdown,hold,containsObject,Option.filter]

/-- The latest touch, while it is down: a lifted one is forgotten, one that begins in the
zone replaces it. -/
theorem latest_isDown_report (h : screen.report touch = .ok screen') :
    ((latest zone screen'.begun).filter fun t => screen'.IsDown t) =
      if containsObject touch.lifts ((latest zone screen.begun).filter fun t => screen.IsDown t) then
        none
      else (latest zone touch.begins).or
        ((latest zone screen.begun).filter fun t => screen.IsDown t) := by
  have hbegun : ∀ t, latest zone screen.begun = some t → t ∈ screen.begun.map Prod.fst := by
    intro t ht
    obtain ⟨p,hmem,_⟩ := mem_of_latest ht
    exact List.mem_map.mpr ⟨_,hmem,rfl⟩
  rw [(Screen.report_eq_ok h).2.1,latest_append]
  cases hbegins : latest zone touch.begins with
  | none => exact filter_isDown_report h hbegun
  | some t =>
    obtain ⟨p,hmem,_⟩ := mem_of_latest hbegins
    have hdown := Screen.isDown_of_begins h hmem
    have hlifts : touch.lifts = [] := by
      cases touch with
      | began touches => rfl
      | _ => cases hmem
    simp [hdown,hlifts,Option.filter]

end Touches
end CourseraObjC
