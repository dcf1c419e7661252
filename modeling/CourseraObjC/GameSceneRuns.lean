import CourseraObjC.GameScene

/-! Runs of Breakout's game scene: when it is won, how often it ends, and how often a block
explodes. Contacts and steps of the running sequences come in any order, and even a
sequence whose node is gone may go on. -/
namespace CourseraObjC
namespace BreakoutDemo

open Runs GameScene

variable {s t u v : GameScene} {e : Event} {es : List Event} {k n blocks : ℕ}

/-! ### Blocks -/

theorem anyBlocksRemaining_iff : s.anyBlocksRemaining = true ↔ ∃ n, .block n ∈ s.children := by
  have hname (node : Node) : node.name = "Block" ↔ ∃ n, node = .block n := by
    cases node <;> simp [Node.name]
  simp only [GameScene.anyBlocksRemaining,GameScene.childNodeWithName,List.find?_isSome,
    decide_eq_true_eq,hname]
  constructor
  · rintro ⟨node,hmem,n,rfl⟩
    exact ⟨n,hmem⟩
  · rintro ⟨n,hmem⟩
    exact ⟨_,hmem,n,rfl⟩

theorem children_step (h : s.step e = .ok t) : t.children ⊆ s.children := by
  rcases step_cases h with ⟨i,actions,rfl,_⟩ | ⟨rfl,_⟩ | ⟨k,i,action,sequences,_,_,rfl⟩
  · exact List.Subset.refl _
  · exact List.Subset.refl _
  · rw [children_perform]
    split_ifs
    · exact List.filter_sublist.subset
    · exact List.Subset.refl _

theorem noBlocks_step (hs : s.anyBlocksRemaining = false) (h : s.step e = .ok t) :
    t.anyBlocksRemaining = false := by
  rw [← Bool.not_eq_true,anyBlocksRemaining_iff] at hs ⊢
  rintro ⟨n,hn⟩
  exact hs ⟨n,children_step h hn⟩

/-! ### Sequences -/

theorem begun_step (hs : Sequences.Begun programs s.sequences) (h : s.step e = .ok t) :
    Sequences.Begun programs t.sequences := by
  rcases step_cases h with ⟨i,actions,rfl,hprogram,_⟩ | ⟨rfl,_⟩ | ⟨k,i,action,sequences,_,hnext,rfl⟩
  · exact hs.append hprogram
  · exact hs
  · rw [sequences_perform]
    exact hs.next hnext

theorem begun_run (hrun : run GameScene.step (didMoveToView blocks) es = .ok t) :
    Sequences.Begun programs t.sequences :=
  run_invariant (fun _ _ _ => begun_step) Sequences.begun_nil hrun

theorem sequence_step {x : Node × List Action} (hx : s.sequences[k]? = some x)
    (he : e ≠ .progress k) (h : s.step e = .ok t) : t.sequences[k]? = some x := by
  rcases step_cases h with ⟨i,actions,rfl,_⟩ | ⟨rfl,_⟩ | ⟨j,i,action,sequences,rfl,hnext,rfl⟩
  · have hk := (List.getElem?_eq_some_iff.mp hx).1
    exact (List.getElem?_append_left hk).trans hx
  · exact hx
  · have hne : k ≠ j := fun hkj => he (by rw [hkj])
    rw [sequences_perform]
    exact (Sequences.getElem?_next_of_ne hnext hne).trans hx

theorem sequence_run {x : Node × List Action} (hx : s.sequences[k]? = some x)
    (hes : .progress k ∉ es) (hrun : run GameScene.step s es = .ok t) :
    t.sequences[k]? = some x :=
  run_invariant_of_mem (I := fun s : GameScene => s.sequences[k]? = some x)
    (fun _ he _ _ hs => sequence_step hs fun hk => hes (hk ▸ he)) hx hrun

theorem isBall_of_switchScene {pool : List (Node × List Action)} {i : Node} {rest : List Action}
    (hpool : Sequences.Begun programs pool) (hk : pool[k]? = some (i,.switchScene::rest)) :
    i.isBall = true := by
  obtain ⟨program,hprogram,hsuffix⟩ := hpool.suffix hk
  have hmem : Action.switchScene ∈ program := hsuffix.subset List.mem_cons_self
  cases i with
  | scene =>
    obtain ⟨soundFile,rfl⟩ := hprogram
    simp at hmem
  | background => cases hprogram
  | ball1 => rfl
  | ball2 => rfl
  | paddle => cases hprogram
  | block n =>
    obtain rfl : program = blockSequence := hprogram
    exact absurd hmem (by decide)

/-- What is left of a block's sequence once it has removed the block. -/
theorem rest_of_removeFromParent {pool : List (Node × List Action)} {rest : List Action}
    (hpool : Sequences.Begun programs pool)
    (hk : pool[k]? = some (.block n,.removeFromParent::rest)) : rest = [.checkGameOver] := by
  obtain ⟨program,hprogram,hsuffix⟩ := hpool.suffix hk
  obtain rfl : program = blockSequence := hprogram
  simpa [blockSequence,List.suffix_cons_iff] using hsuffix

/-! ### End scenes -/

/-- The end scene an action asks the view to present. -/
def GameScene.asks (s : GameScene) : Action → Option EndScene
  | .checkGameOver => if s.anyBlocksRemaining then none else some .GameWon
  | .switchScene => some .GameOver
  | _ => none

def GameScene.outcomeAt (s : GameScene) : Event → Option EndScene
  | .progress k => (Sequences.next k s.sequences).bind fun x => s.asks x.2.1
  | _ => none

/-- A scene without a view presents nothing, and presenting takes the view away. -/
def Outcome (scene : Option EndScene) (s t : GameScene) : Prop :=
  t.presented = s.presented++(if s.view then scene.toList else []) ∧
    t.view = (s.view && scene.isNone)

theorem outcome_none : Outcome none s s := by
  simp [Outcome]

theorem outcome_presentScene (scene : EndScene) (s : GameScene) :
    Outcome (some scene) s (s.presentScene scene) := by
  unfold Outcome GameScene.presentScene
  cases hview : s.view with
  | true => simp
  | false => simp [hview]

theorem outcome_perform (i : Node) (action : Action) (s : GameScene) :
    Outcome (s.asks action) s (s.perform i action) := by
  cases action with
  | checkGameOver =>
    simp only [GameScene.asks,GameScene.perform,GameScene.checkGameOver]
    cases s.anyBlocksRemaining with
    | true => exact outcome_none
    | false => exact outcome_presentScene .GameWon s
  | switchScene => exact outcome_presentScene .GameOver s
  | removeFromParent => exact outcome_none
  | _ => exact outcome_none

theorem outcome_step (h : s.step e = .ok t) : Outcome (s.outcomeAt e) s t := by
  cases e with
  | didBeginContact a b y =>
    simp only [GameScene.step] at h
    split_ifs at h with htouch
    rw [← Except.ok.inj h,didBeginContact_eq]
    cases startedBy (decide (y < 10)) a b with
    | none => exact outcome_none
    | some x => exact outcome_none
  | progress k =>
    simp only [GameScene.step] at h
    split at h
    · rename_i i action sequences hnext
      rw [← Except.ok.inj h,GameScene.outcomeAt,hnext]
      exact outcome_perform i action { s with sequences := sequences }
    · cases h
  | update =>
    rw [← Except.ok.inj h]
    exact outcome_none

/-- The scene is in its view until it has ended, and it ends once. -/
structure EndsOnce (s : GameScene) : Prop where
  view : s.view = true ↔ s.presented = []
  once : s.presented.length ≤ 1

theorem endsOnce_step (hs : EndsOnce s) (h : s.step e = .ok t) : EndsOnce t := by
  obtain ⟨hpresented,hview⟩ := outcome_step h
  obtain ⟨hempty,honce⟩ := hs
  cases hold : s.view with
  | false =>
    simp only [hold,Bool.false_eq_true,if_false,List.append_nil,Bool.false_and] at hpresented hview
    exact ⟨by rw [hview,hpresented,← hempty,hold],by rw [hpresented]; exact honce⟩
  | true =>
    simp only [hold,hempty.mp hold,if_true,List.nil_append,Bool.true_and] at hpresented hview
    cases hscene : s.outcomeAt e with
    | none => exact ⟨by simp [hview,hpresented,hscene],by simp [hpresented,hscene]⟩
    | some scene => exact ⟨by simp [hview,hpresented,hscene],by simp [hpresented,hscene]⟩

theorem endsOnce_didMoveToView (blocks : ℕ) : EndsOnce (didMoveToView blocks) :=
  ⟨iff_of_true rfl rfl,Nat.zero_le 1⟩

theorem endsOnce_run (hrun : run GameScene.step (didMoveToView blocks) es = .ok t) :
    EndsOnce t :=
  run_invariant (fun _ _ _ => endsOnce_step) (endsOnce_didMoveToView blocks) hrun

theorem presented_run (hrun : run GameScene.step s es = .ok t) : s.presented <+: t.presented :=
  run_invariant (I := fun t : GameScene => s.presented <+: t.presented)
    (fun _ _ _ hs h => hs.trans ((outcome_step h).1 ▸ List.prefix_append _ _))
    (List.prefix_refl _) hrun

/-! ### Winning -/

structure NotLost (s : GameScene) : Prop where
  balls : ∀ i ∈ s.sequences.map Prod.fst, i.isBall = false
  won : ∀ scene ∈ s.presented, scene = .GameWon

/-- Off the floor only a win check asks for a scene, and it asks for the won one. -/
theorem NotLost.outcomeAt {scene : EndScene} (hs : NotLost s)
    (hbegun : Sequences.Begun programs s.sequences) (h : s.outcomeAt e = some scene) :
    scene = .GameWon ∧ s.anyBlocksRemaining = false := by
  cases e with
  | didBeginContact a b y => cases h
  | update => cases h
  | progress k =>
    obtain ⟨⟨i,action,sequences⟩,hnext,hasks⟩ := Option.bind_eq_some_iff.mp h
    obtain ⟨rest,hk,_⟩ := Sequences.next_eq_some.mp hnext
    cases action with
    | checkGameOver =>
      simp only [GameScene.asks] at hasks
      split_ifs at hasks with hblocks
      exact ⟨(Option.some.inj hasks).symm,by simpa using hblocks⟩
    | switchScene =>
      have hball := isBall_of_switchScene hbegun hk
      have hnot := hs.balls i (List.mem_map.mpr ⟨_,List.mem_of_getElem? hk,rfl⟩)
      cases hball.symm.trans hnot
    | _ => cases hasks

theorem notLost_step (hbegun : Sequences.Begun programs s.sequences) (hs : NotLost s)
    (he : e.touchesFloor = false) (h : s.step e = .ok t) : NotLost t := by
  constructor
  · rcases step_cases h with ⟨i,actions,rfl,_,_,hfloor⟩ | ⟨rfl,_⟩ | ⟨k,i,action,sequences,_,hnext,rfl⟩
    · intro j hj
      rw [GameScene.runAction,List.map_append,List.mem_append] at hj
      rcases hj with hj | hj
      · exact hs.balls j hj
      · obtain rfl : j = i := by simpa using hj
        rw [← Bool.not_eq_true]
        intro hball
        cases he.symm.trans (hfloor hball)
    · exact hs.balls
    · rw [sequences_perform]
      simp only [Sequences.map_fst_next hnext]
      exact hs.balls
  · intro scene hscene
    rw [(outcome_step h).1] at hscene
    rcases List.mem_append.mp hscene with hscene | hscene
    · exact hs.won scene hscene
    · split_ifs at hscene
      · exact (hs.outcomeAt hbegun (by simpa using hscene)).1
      · cases hscene

theorem notLost_run (hes : ∀ e ∈ es, e.touchesFloor = false)
    (hrun : run GameScene.step (didMoveToView blocks) es = .ok t) : NotLost t := by
  have hstart : NotLost (didMoveToView blocks) := ⟨by simp [didMoveToView],by simp [didMoveToView]⟩
  have hinv := run_invariant_of_mem (I := fun s => Sequences.Begun programs s.sequences ∧ NotLost s)
    (fun e he _ _ hs h => ⟨begun_step hs.1 h,notLost_step hs.1 hs.2 (hes e he) h⟩)
    ⟨Sequences.begun_nil,hstart⟩ hrun
  exact hinv.2

/-- The step that takes the last block from the scene leaves its sequence the win check. -/
theorem winCheck_of_last_block (hbegun : Sequences.Begun programs s.sequences)
    (h : s.step (.progress k) = .ok t) (hs : s.anyBlocksRemaining = true)
    (ht : t.anyBlocksRemaining = false) : ∃ n, t.sequences[k]? = some (.block n,[.checkGameOver]) := by
  obtain ⟨n,hn⟩ := anyBlocksRemaining_iff.mp hs
  have hgone : Node.block n ∉ t.children := by
    intro hmem
    cases ht.symm.trans (anyBlocksRemaining_iff.mpr ⟨n,hmem⟩)
  simp only [GameScene.step] at h
  split at h
  · rename_i i action sequences hnext
    obtain rfl := Except.ok.inj h
    obtain ⟨rest,hk,_⟩ := Sequences.next_eq_some.mp hnext
    rw [children_perform] at hgone
    split_ifs at hgone with haction
    · subst haction
      obtain rfl : .block n = i := by simpa [hn] using hgone
      obtain rfl := rest_of_removeFromParent hbegun hk
      rw [sequences_perform]
      exact ⟨n,Sequences.getElem?_next_self hnext hk⟩
    · exact absurd hn hgone
  · cases h

/-- A game that is not lost and has asked for an end scene has presented the won one, once. -/
theorem presented_of_outcome {scene : EndScene} (hs : NotLost s)
    (hbegun : Sequences.Begun programs s.sequences) (honce : EndsOnce s)
    (hscene : s.outcomeAt e = some scene) (h : s.step e = .ok t) : t.presented = [.GameWon] := by
  obtain rfl := (hs.outcomeAt hbegun hscene).1
  rw [(outcome_step h).1,hscene]
  cases hview : s.view with
  | true => rw [honce.view.mp hview]; rfl
  | false =>
    have hne : s.presented ≠ [] := by simp [← honce.view,hview]
    obtain ⟨first,hfirst⟩ := List.length_eq_one_iff.mp
      (Nat.le_antisymm honce.once (List.length_pos_iff.mpr hne))
    obtain rfl : first = .GameWon := hs.won first (by simp [hfirst])
    simp [hfirst]

theorem noBlocks_run (hs : s.anyBlocksRemaining = false) (hrun : run GameScene.step s es = .ok t) :
    t.anyBlocksRemaining = false :=
  run_invariant (fun _ _ _ => noBlocks_step) hs hrun

theorem presented_of_winCheck {i : Node} (hs : NotLost s)
    (hbegun : Sequences.Begun programs s.sequences) (honce : EndsOnce s)
    (hk : s.sequences[k]? = some (i,[.checkGameOver])) (hblocks : s.anyBlocksRemaining = false)
    (h : s.step (.progress k) = .ok t) : t.presented = [.GameWon] := by
  have hnext : Sequences.next k s.sequences =
      some (i,.checkGameOver,s.sequences.set k (i,[])) := Sequences.next_eq_some.mpr ⟨[],hk,rfl⟩
  have hscene : s.outcomeAt (.progress k) = some .GameWon := by
    rw [GameScene.outcomeAt,hnext]
    simp [GameScene.asks,hblocks]
  exact presented_of_outcome hs hbegun honce hscene h

theorem presented_of_ne (hs : NotLost s) (hbegun : Sequences.Begun programs s.sequences)
    (h : s.step e = .ok t) (hpresented : t.presented ≠ s.presented) :
    s.anyBlocksRemaining = false ∧ t.presented = s.presented++[.GameWon] := by
  rw [(outcome_step h).1] at hpresented ⊢
  cases hscene : s.outcomeAt e with
  | none => simp [hscene] at hpresented
  | some scene =>
    obtain ⟨rfl,hblocks⟩ := hs.outcomeAt hbegun hscene
    cases hview : s.view with
    | false => simp [hview] at hpresented
    | true => exact ⟨hblocks,rfl⟩

theorem presented_of_last_block {before between : List Event} {w x : GameScene}
    (hes : ∀ e ∈ before++.progress k::between, e.touchesFloor = false)
    (hu : run GameScene.step (didMoveToView blocks) before = .ok u) (hv : u.step (.progress k) = .ok v)
    (hsome : u.anyBlocksRemaining = true) (hnone : v.anyBlocksRemaining = false)
    (hbetween : .progress k ∉ between) (hw : run GameScene.step v between = .ok w)
    (hx : w.step (.progress k) = .ok x) : x.presented = [.GameWon] := by
  obtain ⟨n,hk⟩ := winCheck_of_last_block (begun_run hu) hv hsome hnone
  have htoW : run GameScene.step (didMoveToView blocks) (before++.progress k::between) = .ok w :=
    run_append_eq_ok.mpr ⟨u,hu,run_cons_eq_ok.mpr ⟨v,hv,hw⟩⟩
  exact presented_of_winCheck (notLost_run hes htoW) (begun_run htoW) (endsOnce_run htoW)
    (sequence_run hk hbetween hw) (noBlocks_run hnone hw) hx

/-- Off the floor, whatever the order of the steps: an end scene is presented where no
block is left only, it is the won one, and it is presented by the time the sequence that
removed the last block has run its next step, and once. -/
theorem won_by_clearing (hes : ∀ e ∈ es, e.touchesFloor = false)
    (hrun : run GameScene.step (didMoveToView blocks) es = .ok t) :
    (∀ before e after u v, es = before++e::after →
        run GameScene.step (didMoveToView blocks) before = .ok u → u.step e = .ok v →
          v.presented ≠ u.presented →
            u.anyBlocksRemaining = false ∧ v.presented = u.presented++[.GameWon]) ∧
      (∀ before k between after u v, es = before++.progress k::(between++.progress k::after) →
        run GameScene.step (didMoveToView blocks) before = .ok u → u.step (.progress k) = .ok v →
          u.anyBlocksRemaining = true → v.anyBlocksRemaining = false → .progress k ∉ between →
            t.presented = [.GameWon]) ∧
      t.presented.length ≤ 1 := by
  have honce := (endsOnce_run hrun).once
  refine ⟨?_,?_,honce⟩
  · rintro before e after u v rfl hu hv hpresented
    have hnotLost := notLost_run (fun f hf => hes f (List.mem_append_left _ hf)) hu
    exact presented_of_ne hnotLost (begun_run hu) hv hpresented
  · rintro before k between after u v rfl hu hv hsome hnone hbetween
    obtain ⟨u',hu',hrest⟩ := run_append_eq_ok.mp hrun
    obtain rfl := Except.ok.inj (hu.symm.trans hu')
    obtain ⟨v',hv',hrest⟩ := run_cons_eq_ok.mp hrest
    obtain rfl := Except.ok.inj (hv.symm.trans hv')
    obtain ⟨w,hw,hrest⟩ := run_append_eq_ok.mp hrest
    obtain ⟨x,hx,hafter⟩ := run_cons_eq_ok.mp hrest
    have hearlier : ∀ f ∈ before++.progress k::between, f.touchesFloor = false := by
      intro f hf
      apply hes
      simp only [List.mem_append,List.mem_cons] at hf ⊢
      tauto
    have hwon := presented_of_last_block hearlier hu hv hsome hnone hbetween hw hx
    obtain ⟨later,hlater⟩ := presented_run hafter
    rw [← hlater,hwon] at honce ⊢
    simpa using honce

def clearOne : List Event :=
  [.didBeginContact .ball1 (.block 0) 700,.update]++List.replicate 6 (.progress 0)

theorem clearOne_wins : ∃ t, run GameScene.step (didMoveToView 1) clearOne = .ok t ∧
    t.presented = [.GameWon] := by
  refine ⟨_,rfl,?_⟩
  exact (won_by_clearing (by decide)
      (show run GameScene.step (didMoveToView 1) clearOne = .ok _ from rfl)).2.1
    (clearOne.take 6) 0 [] [] _ _ rfl rfl rfl (by decide) (by decide) (by simp)

/-! ### Losing -/

def OneOutcome (s : GameScene) (es : List Event) : Prop :=
  ∀ before after t, es = before++after → run GameScene.step s before = .ok t →
    t.presented.length ≤ 1

def FloorLoses (s : GameScene) (es : List Event) : Prop :=
  ∀ before e after t u, es = before++e::after → run GameScene.step s before = .ok t →
    t.step e = .ok u → (∃ f ∈ before, f.touchesFloor = true) → u.presented ≠ t.presented++[.GameWon]

/-- Every win check that finds no block left after a ball touched the floor comes after a
step that had ended the game. -/
def LateWinsComeTooLate (s : GameScene) (es : List Event) : Prop :=
  ∀ before e after t, es = before++e::after → run GameScene.step s before = .ok t →
    t.outcomeAt e = some .GameWon → (∃ f ∈ before, f.touchesFloor = true) →
      ¬ Along GameScene.step (fun s e => s.outcomeAt e = none) s before

theorem view_run_of_gone (hs : s.view = false) (hrun : run GameScene.step s es = .ok t) :
    t.view = false := by
  have hstep : ∀ e u v, u.view = false → GameScene.step u e = .ok v → v.view = false := by
    intro e u v hu h
    rw [(outcome_step h).2,hu,Bool.false_and]
  exact run_invariant hstep hs hrun

theorem view_run_iff (hs : s.view = true) (hrun : run GameScene.step s es = .ok t) :
    t.view = true ↔ Along GameScene.step (fun s e => s.outcomeAt e = none) s es := by
  induction es generalizing s with
  | nil =>
    obtain rfl := Except.ok.inj hrun
    exact iff_of_true hs (along_nil _)
  | cons e es ih =>
    obtain ⟨u,hu,hrest⟩ := run_cons_eq_ok.mp hrun
    have hview := (outcome_step hu).2
    rw [hs,Bool.true_and] at hview
    rw [along_cons]
    cases hscene : s.outcomeAt e with
    | none =>
      rw [hscene] at hview
      rw [ih hview hrest,forall_ok_iff hu]
      exact (and_iff_right rfl).symm
    | some scene =>
      rw [hscene] at hview
      simp [view_run_of_gone hview hrest]

theorem presents_won_iff (h : s.step e = .ok t) :
    t.presented = s.presented++[.GameWon] ↔ s.view = true ∧ s.outcomeAt e = some .GameWon := by
  rw [(outcome_step h).1,List.append_cancel_left_eq]
  cases hview : s.view with
  | false => simp
  | true =>
    cases hscene : s.outcomeAt e with
    | none => simp
    | some scene => simp

theorem step_of_outcomeAt {scene : EndScene} (h : s.outcomeAt e = some scene) :
    ∃ t, s.step e = .ok t := by
  cases e with
  | didBeginContact a b y => cases h
  | update => cases h
  | progress k =>
    obtain ⟨⟨i,action,sequences⟩,hnext,_⟩ := Option.bind_eq_some_iff.mp h
    exact ⟨_,by simp only [GameScene.step,hnext]; rfl⟩

/-- A game has one outcome and a dropped ball loses exactly if every win after the drop
comes too late. -/
theorem one_outcome_iff (blocks : ℕ) (es : List Event) :
    OneOutcome (didMoveToView blocks) es ∧ FloorLoses (didMoveToView blocks) es ↔
      LateWinsComeTooLate (didMoveToView blocks) es := by
  have hone : OneOutcome (didMoveToView blocks) es := fun _ _ _ _ hrun => (endsOnce_run hrun).once
  have hstart : (didMoveToView blocks).view = true := rfl
  constructor
  · rintro ⟨_,hlost⟩ before e after t heq hrun hscene hfloor halong
    obtain ⟨u,hu⟩ := step_of_outcomeAt hscene
    exact hlost before e after t u heq hrun hu hfloor
      ((presents_won_iff hu).mpr ⟨(view_run_iff hstart hrun).mpr halong,hscene⟩)
  · intro hlate
    refine ⟨hone,?_⟩
    intro before e after t u heq hrun hu hfloor hpresented
    obtain ⟨hview,hscene⟩ := (presents_won_iff hu).mp hpresented
    exact hlate before e after t heq hrun hscene hfloor ((view_run_iff hstart hrun).mp hview)

def dropLate : List Event :=
  [.didBeginContact .ball1 (.block 0) 700]++List.replicate 4 (.progress 0)++
    [.didBeginContact .ball2 .scene 5,.progress 0,.progress 0]

theorem dropped_ball_wins : ∃ t u, run GameScene.step (didMoveToView 1) (dropLate.take 6) = .ok t ∧
    (∃ e ∈ dropLate.take 6, e.touchesFloor = true) ∧ t.presented = [] ∧
      run GameScene.step t (dropLate.drop 6) = .ok u ∧ u.presented = [.GameWon] :=
  ⟨_,_,rfl,by decide,rfl,rfl,by decide⟩

/-! ### Exploding -/

def GameScene.started (n : ℕ) (s : GameScene) : ℕ :=
  s.sequences.countP fun x => x.1 = .block n

theorem started_step (h : s.step e = .ok t) :
    t.started n = s.started n+if e.hits n then 1 else 0 := by
  rcases step_cases h with ⟨i,actions,rfl,_,hhits,_⟩ | ⟨rfl,hhits⟩ | ⟨k,i,action,sequences,rfl,hnext,rfl⟩
  · simp only [GameScene.started,GameScene.runAction,List.countP_append,List.countP_singleton,
      ← hhits n,decide_eq_true_eq]
  · rw [hhits n]
    rfl
  · have howners : sequences.countP (fun x => decide (x.1 = .block n)) =
        (sequences.map Prod.fst).countP fun i => decide (i = .block n) := by
      rw [List.countP_map]
      rfl
    rw [GameScene.started,sequences_perform,howners,Sequences.map_fst_next hnext,List.countP_map]
    rfl

theorem started_run (hrun : run GameScene.step s es = .ok t) :
    t.started n = s.started n+es.countP (Event.hits n) := by
  induction es generalizing s with
  | nil =>
    obtain rfl := Except.ok.inj hrun
    rfl
  | cons e es ih =>
    obtain ⟨u,hu,hrest⟩ := run_cons_eq_ok.mp hrun
    rw [ih hrest,started_step hu,List.countP_cons]
    omega

/-- No block explodes twice exactly if no ball hits the same block twice. -/
theorem explodes_once_iff (hrun : run GameScene.step (didMoveToView blocks) es = .ok t) :
    (∀ n, t.started n ≤ 1) ↔ ∀ n, es.countP (Event.hits n) ≤ 1 := by
  have hstart (n : ℕ) : (didMoveToView blocks).started n = 0 := rfl
  simp only [started_run hrun,hstart,Nat.zero_add]

theorem clearOne_explodes_once : ∃ t, run GameScene.step (didMoveToView 1) clearOne = .ok t ∧
    ∀ n, t.started n ≤ 1 := by
  refine ⟨_,rfl,?_⟩
  apply (explodes_once_iff (show run GameScene.step (didMoveToView 1) clearOne = .ok _ from rfl)).mpr
  intro n
  have hrest : clearOne.tail.countP (Event.hits n) = 0 := rfl
  rw [show clearOne = _::clearOne.tail from rfl,List.countP_cons,hrest]
  split_ifs <;> omega

theorem explodes_twice : ∃ t, run GameScene.step (didMoveToView 1)
    [.didBeginContact .ball1 (.block 0) 700,.progress 0,.didBeginContact (.block 0) .ball2 710] = .ok t ∧
      t.started 0 = 2 :=
  ⟨_,rfl,rfl⟩

end BreakoutDemo
end CourseraObjC
