import CourseraObjC.Runs

/-! Edits that act on a value, and that merge into one edit while they wait to be sent. Either
may fail. What one merged edit does is compared with what the edits it stands for do one after
the other, wherever these meet what they need and up to a likeness of values. -/
namespace CourseraObjC

/-- The edits of a client, in the order they were made in: those the other side has confirmed,
those under way to it, and those that have not been sent. -/
structure EditLog (ε : Type*) where
  confirmed : List ε := []
  sent : Option (List ε) := none
  unsent : List ε := []

namespace EditLog

variable {ε : Type*}

def edit (l : EditLog ε) (e : ε) : EditLog ε := {l with unsent := l.unsent++[e]}

def send (l : EditLog ε) : EditLog ε := {l with sent := some l.unsent,unsent := []}

def confirm (l : EditLog ε) : EditLog ε :=
  {l with confirmed := l.confirmed++l.sent.getD [],sent := none}

/-- What was under way and not confirmed is to be sent again, before all else. -/
def reject (l : EditLog ε) : EditLog ε :=
  {l with sent := none,unsent := l.sent.getD []++l.unsent}

def drop (p : ε → Bool) (l : EditLog ε) : EditLog ε := {l with unsent := l.unsent.filter p}

def all (l : EditLog ε) : List ε := l.confirmed++(l.sent.getD []++l.unsent)

theorem all_edit (l : EditLog ε) (e : ε) : (l.edit e).all = l.all++[e] := by
  simp [all,edit]

theorem all_send {l : EditLog ε} (h : l.sent = none) : l.send.all = l.all := by
  simp [all,send,h]

theorem all_confirm (l : EditLog ε) : l.confirm.all = l.all := by
  simp [all,confirm]

theorem all_reject (l : EditLog ε) : l.reject.all = l.all := by
  simp [all,reject]

end EditLog

namespace MergedEdits

universe u

variable {O V χ : Type u}

/-- What merging needs: likeness is kept by edits, and a merged edit does what its two parts
do one after the other wherever both meet what they need. -/
structure Laws (act : O → V → Except χ V) (merge : O → O → Except χ O) (fit : O → Prop)
    (meets : V → O → Prop) (alike : V → V → Prop) : Prop where
  refl : ∀ v, alike v v
  symm : ∀ {v w}, alike v w → alike w v
  trans : ∀ {v w x}, alike v w → alike w x → alike v x
  meets_congr : ∀ {o v v'}, alike v v' → meets v o → meets v' o
  act_congr : ∀ {o v v' w}, alike v v' → act o v = .ok w → ∃ w', act o v' = .ok w' ∧ alike w w'
  act_merge : ∀ {new old m v w x}, fit old → merge new old = .ok m → meets v old →
    act old v = .ok w → meets w new → act new w = .ok x → ∃ y, act m v = .ok y ∧ alike y x
  meets_merge : ∀ {new old m v w}, merge new old = .ok m → meets v old → meets w new → meets v m
  fit_merge : ∀ {new old m}, fit old → merge new old = .ok m → fit m

def actAll (act : O → V → Except χ V) (os : List O) (v : V) : Except χ V :=
  Runs.run (fun v o => act o v) v os

def AllMeet (act : O → V → Except χ V) (meets : V → O → Prop) (os : List O) (v : V) : Prop :=
  Runs.Along (fun v o => act o v) meets v os

def actSlot (act : O → V → Except χ V) : Option O → V → Except χ V
  | none, v => .ok v
  | some o, v => act o v

def actSlots (act : O → V → Except χ V) (slots : List (Option O)) (v : V) : Except χ V :=
  Runs.run (fun v o => actSlot act o v) v slots

def mergeSlot (merge : O → O → Except χ O) : Option O → Option O → Except χ (Option O)
  | none, old => .ok old
  | some new, none => .ok (some new)
  | some new, some old => do return some (← merge new old)

/-- `slot` stands for the edits `os`: where these meet what they need and get through, so does
it, and it does what they do. -/
structure Represents (act : O → V → Except χ V) (fit : O → Prop) (meets : V → O → Prop)
    (alike : V → V → Prop) (slot : Option O) (os : List O) : Prop where
  fits : ∀ o, slot = some o → fit o
  finds : ∀ v w o, AllMeet act meets os v → actAll act os v = .ok w → slot = some o → meets v o
  acts : ∀ v w, AllMeet act meets os v → actAll act os v = .ok w →
    ∃ y, actSlot act slot v = .ok y ∧ alike y w

section Laws

variable {act : O → V → Except χ V} {merge : O → O → Except χ O} {fit : O → Prop}
  {meets : V → O → Prop} {alike : V → V → Prop} (L : Laws act merge fit meets alike)
include L

theorem Laws.actSlot_congr {slot : Option O} {v v' w : V} (h : alike v v')
    (hact : actSlot act slot v = .ok w) : ∃ w', actSlot act slot v' = .ok w' ∧ alike w w' := by
  cases slot with
  | none =>
    obtain rfl := Except.ok.inj hact
    exact ⟨v',rfl,h⟩
  | some o => exact L.act_congr h hact

theorem Laws.represents_nil : Represents act fit meets alike none [] where
  fits := by simp
  finds := by simp
  acts := fun v _ _ h => ⟨v,rfl,Except.ok.inj h ▸ L.refl v⟩

theorem Laws.represents_singleton {o : O} (ho : fit o) :
    Represents act fit meets alike (some o) [o] where
  fits := fun p hp => Option.some.inj hp ▸ ho
  finds := fun v w p hmeet _ hp => Option.some.inj hp ▸ hmeet.1
  acts := by
    intro v w _ h
    rw [actAll,Runs.run_singleton] at h
    exact ⟨w,h,L.refl w⟩

/-- What stands for some edits and what stands for the edits after them, merged, stands for
all of them. -/
theorem Laws.represents_append {old new merged : Option O} {os ns : List O}
    (hold : Represents act fit meets alike old os) (hnew : Represents act fit meets alike new ns)
    (hmerge : mergeSlot merge new old = .ok merged) :
    Represents act fit meets alike merged (os++ns) := by
  have hseq : ∀ v x, AllMeet act meets (os++ns) v → actAll act (os++ns) v = .ok x →
      (∀ o, old = some o → meets v o) ∧ ∃ w y, actSlot act old v = .ok w ∧
        (∀ n, new = some n → meets w n) ∧ actSlot act new w = .ok y ∧ alike y x := by
    intro v x hmeet h
    obtain ⟨w,hw,hx⟩ := Runs.run_append_eq_ok.mp h
    obtain ⟨hos,hns⟩ := (Runs.along_append v os ns).mp hmeet
    obtain ⟨w',hw',hlike⟩ := hold.acts v w hos hw
    obtain ⟨y,hy,hyx⟩ := hnew.acts w x (hns w hw) hx
    obtain ⟨y',hy',hyy'⟩ := L.actSlot_congr (L.symm hlike) hy
    have hfinds : ∀ n, new = some n → meets w' n := fun n hn =>
      L.meets_congr (L.symm hlike) (hnew.finds w x n (hns w hw) hx hn)
    exact ⟨fun o => hold.finds v w o hos hw,w',y',hw',hfinds,hy',L.trans (L.symm hyy') hyx⟩
  cases new with
  | none =>
    obtain rfl := Except.ok.inj hmerge
    refine ⟨hold.fits,fun v x o hmeet h => (hseq v x hmeet h).1 o,fun v x hmeet h => ?_⟩
    obtain ⟨_,w,y,hw,_,hy,hyx⟩ := hseq v x hmeet h
    obtain rfl := Except.ok.inj hy
    exact ⟨w,hw,hyx⟩
  | some n =>
    cases old with
    | none =>
      obtain rfl := Except.ok.inj hmerge
      refine ⟨hnew.fits,fun v x o hmeet h ho => ?_,fun v x hmeet h => ?_⟩
      · obtain ⟨_,w,_,hw,hfinds,_⟩ := hseq v x hmeet h
        obtain rfl := Except.ok.inj hw
        exact hfinds o ho
      · obtain ⟨_,w,y,hw,_,hy,hyx⟩ := hseq v x hmeet h
        obtain rfl := Except.ok.inj hw
        exact ⟨y,hy,hyx⟩
    | some o =>
      obtain ⟨m,hm,hsome⟩ := Runs.bind_eq_ok.mp hmerge
      obtain rfl := Except.ok.inj hsome
      have ho := hold.fits o rfl
      refine ⟨fun p hp => Option.some.inj hp ▸ L.fit_merge ho hm,fun v x p hmeet h hp => ?_,
        fun v x hmeet h => ?_⟩
      · obtain ⟨hfirst,w,_,_,hfinds,_⟩ := hseq v x hmeet h
        exact Option.some.inj hp ▸ L.meets_merge hm (hfirst o rfl) (hfinds n rfl)
      · obtain ⟨hfirst,w,y,hw,hfinds,hy,hyx⟩ := hseq v x hmeet h
        obtain ⟨z,hz,hzy⟩ := L.act_merge ho hm (hfirst o rfl) hw (hfinds n rfl) hy
        exact ⟨z,hz,L.trans hzy hyx⟩

/-- Slots that stand for some edits, and one more that stands for those after them. -/
theorem Laws.actSlots_concat {slots : List (Option O)} {slot : Option O} {os ns : List O}
    (hslots : ∀ v w, AllMeet act meets os v → actAll act os v = .ok w →
      ∃ y, actSlots act slots v = .ok y ∧ alike y w)
    (hslot : Represents act fit meets alike slot ns) (v x : V)
    (hmeet : AllMeet act meets (os++ns) v) (h : actAll act (os++ns) v = .ok x) :
    ∃ y, actSlots act (slots++[slot]) v = .ok y ∧ alike y x := by
  obtain ⟨w,hw,hx⟩ := Runs.run_append_eq_ok.mp h
  obtain ⟨hos,hns⟩ := (Runs.along_append v os ns).mp hmeet
  obtain ⟨w',hw',hlike⟩ := hslots v w hos hw
  obtain ⟨y,hy,hyx⟩ := hslot.acts w x (hns w hw) hx
  obtain ⟨y',hy',hyy'⟩ := L.actSlot_congr (L.symm hlike) hy
  exact ⟨y',Runs.run_concat_eq_ok.mpr ⟨w',hw',hy'⟩,L.trans (L.symm hyy') hyx⟩

end Laws

end MergedEdits
end CourseraObjC
