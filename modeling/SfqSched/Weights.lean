import SfqSched.Membership

namespace SfqSched
open State Function

namespace View

/-- The weight of every group that competes is its shares. -/
def Fitted (v : View) : Prop := ∀ g, v.joined (.group g) → v.weight (.group g) = v.shares g

/-- The same entities compete with the same weights and shares. -/
structure Even (v v' : View) : Prop where
  joined : v'.joined = v.joined
  weight : v'.weight = v.weight
  shares : v'.shares = v.shares
  cls : v'.cls = v.cls

theorem Even.trans {v v' v'' : View} (h : Even v v') (h' : Even v' v'') : Even v v'' :=
  ⟨h'.joined.trans h.joined, h'.weight.trans h.weight, h'.shares.trans h.shares, h'.cls.trans h.cls⟩

theorem Fitted.even {v v' : View} (fitted : v.Fitted) (even : Even v v') : v'.Fitted := by
  intro g joined
  rw [even.joined] at joined
  rw [even.weight, even.shares]
  exact fitted g joined

theorem reshare_joined (v : View) (q : Nat) : (v.reshare q).joined = v.joined := by
  unfold reshare
  split
  · rfl
  · split
    · rfl
    · unfold reweigh
      split <;> rfl

theorem reshare_shares (v : View) (q : Nat) : (v.reshare q).shares = v.shares := by
  unfold reshare
  split
  · rfl
  · split
    · rfl
    · unfold reweigh
      split <;> rfl

theorem reshare_cls (v : View) (q : Nat) : (v.reshare q).cls = v.cls := by
  unfold reshare
  split
  · rfl
  · split
    · rfl
    · unfold reweigh
      split <;> rfl

/-- `update_sfq_shares` gives the owner of the queue its shares as weight, and no one else. -/
theorem reshare_weight (v : View) (q : Nat) (e : EntId) :
    (v.reshare q).weight e = if v.groupSe (v.owner q) = some e then v.shares (v.owner q) else v.weight e := by
  unfold reshare
  split
  · rename_i none_there
    simp [none_there]
  · rename_i se owner
    rw [owner]
    by_cases same : e = se
    · subst same
      split
      · rename_i fits
        rw [if_pos rfl, fits]
      · unfold reweigh
        split <;> simp
    · have other : some se ≠ some e := fun eq => same (Option.some.inj eq).symm
      rw [if_neg other]
      split
      · rfl
      · unfold reweigh
        split <;> exact update_of_ne same ..

/-- The entity whose weight is stored gets the weight that fits its group. -/
theorem Fitted.reshare {v : View} {q : Nat} (fitted : v.Fitted) (hier : v.Hier) (inside : q < v.ngroups) :
    (v.reshare q).Fitted := by
  intro g joined
  rw [reshare_joined] at joined
  rw [reshare_weight, reshare_shares, hier.owner q inside, hier.groupSe q inside]
  split
  · rename_i owner
    obtain ⟨_, same⟩ := seOf_some owner
    cases same
    rfl
  · exact fitted g joined

/-- An entity may join if its weight fits. -/
theorem Fitted.joins {v : View} {e : EntId} (fitted : v.Fitted) (weight : ∀ g, e = .group g → v.weight e = v.shares g) :
    (v.setJoined e true).Fitted := by
  intro g joined
  by_cases same : EntId.group g = e
  · exact (congrArg v.weight same).trans (weight g same.symm)
  · exact fitted g (by simpa [setJoined, update_of_ne same] using joined)

theorem Fitted.leaves {v : View} {e : EntId} (fitted : v.Fitted) : (v.setJoined e false).Fitted := by
  intro g joined
  by_cases same : EntId.group g = e
  · subst same
    simp [setJoined] at joined
  · exact fitted g (by simpa [setJoined, update_of_ne same] using joined)

end View

section entities
variable {s s' : State} {L : List EntId} {q : Gid} {e : EntId} {flags : Nat}

/-- A group that comes back to its queue has the weight it is worth. -/
theorem enqueueEntity_fitted (hier : s.view.Hier) (inside : q < s.view.ngroups) (fitted : s.view.Fitted)
    (weight : ∀ g, e = .group g → s.view.weight e = s.view.shares g) (run : enqueueEntity s q e flags = some s') :
    s'.view.Fitted := by
  obtain ⟨boosted, _, look⟩ := enqueueEntity_view hier run
  rw [look]
  have before : (((s.view.runnable e boosted).enter q e).account q e).Fitted := fitted.even ⟨rfl, rfl, rfl, rfl⟩
  have hier' : (((s.view.runnable e boosted).enter q e).account q e).Hier := { hier with }
  refine (before.reshare hier' inside).joins fun g same => ?_
  rw [View.reshare_weight, View.reshare_shares, hier'.owner q inside, hier'.groupSe q inside]
  split
  · rename_i owner
    obtain ⟨_, there⟩ := seOf_some owner
    cases same.symm.trans there
    rfl
  · exact weight g same

/-- A group that leaves its queue need not fit any longer. -/
theorem dequeueEntity_fitted (core : s.view.Core L) (inside : q < s.view.ngroups) (fitted : s.view.Fitted)
    (run : dequeueEntity s q e flags = some s') : s'.view.Fitted := by
  by_cases joined : s.view.joined e
  · rw [dequeueEntity_view core run joined]
    have before : (((s.view.unboosted e).withdraw q e).unaccount q e).Fitted := fitted.even ⟨rfl, rfl, rfl, rfl⟩
    exact before.leaves.reshare { core.hier with } inside
  · rw [dequeueEntity_apart run (by simpa using joined)]
    exact fitted

/-- To be put back is no change of weight. -/
theorem putPrevEntity_even (hier : s.view.Hier) (run : putPrevEntity s q e flags = some s') :
    s'.view.Hier ∧ s.view.Even s'.view := by
  rcases putPrevEntity_view hier run with ⟨_, look⟩ | ⟨_, _, _, _, look⟩
  · rw [look]
    exact ⟨{ hier with }, rfl, rfl, rfl, rfl⟩
  · rw [look]
    exact ⟨{ hier with }, rfl, rfl, rfl, rfl⟩

theorem pssPutPrevWalk_even {chain : List EntId} (hier : s.view.Hier) (run : pssPutPrevWalk s chain flags = some s') :
    s.view.Even s'.view := by
  induction chain generalizing s with
  | nil =>
    cases run
    exact ⟨rfl, rfl, rfl, rfl⟩
  | cons se rest ih =>
    unfold pssPutPrevWalk at run
    split at run
    · cases run
    · rename_i step
      obtain ⟨hier', even⟩ := putPrevEntity_even hier step
      exact even.trans (ih hier' run)

/-- To get the CPU is no change of weight. -/
theorem activateEntity_even (run : activateEntity s q e = some s') : s.view.Even s'.view := by
  obtain ⟨_, a, first, _, rfl⟩ := activateEntity_parts run
  have off : s.view.Even (runqDequeueEntity s e).view := by
    unfold runqDequeueEntity
    split
    · rw [rawRunqDequeue_view]
      split <;> exact ⟨rfl, rfl, rfl, rfl⟩
    · exact ⟨rfl, rfl, rfl, rfl⟩
  obtain ⟨_, look, _⟩ := rawDequeueEntity_spec _ _ _ first
  refine off.trans ?_
  rw [activateStart_view, look]
  exact ⟨rfl, rfl, rfl, rfl⟩

theorem pssActivateWalk_even {chain : List EntId} (run : pssActivateWalk s chain = some s') : s.view.Even s'.view := by
  induction chain generalizing s with
  | nil =>
    cases run
    exact ⟨rfl, rfl, rfl, rfl⟩
  | cons se rest ih =>
    unfold pssActivateWalk at run
    split at run
    · cases run
    · rename_i step
      exact (activateEntity_even step).trans (ih run)

end entities

section runs
variable {C : Conds} {s s' : State} {L : List EntId} {d : Option EntId}

/-- No step of a hook lets a joined group's weight stray from its shares. -/
theorem Flow.fitted (inv : Inv C s L d) (step : Flow C s s') (fitted : s.view.Fitted) : s'.view.Fitted := by
  have hier := inv.core.hier
  cases step with
  | quiet same =>
    intro g joined
    rw [same.weight, same.shares]
    exact fitted g ((same.seated (.group g)).mp ⟨joined, EntId.pss_group ..⟩).1
  | clock run =>
    rw [run]
    exact fitted
  | charge q run =>
    rw [run, updateCurr_view]
    exact fitted
  | reshare q inside run =>
    rw [run, updateSfqShares_view]
    exact fitted.reshare hier inside
  | enqueue e flags run fits => exact enqueueEntity_fitted hier (hier.inside e) fitted fits.weight run
  | start t flags initial run =>
    have look : (updateRqClock (s.modEnt (.thread t) fun se => { se with initial := false })).view =
        { s.view with initial := update s.view.initial (.thread t) false } := by
      change (s.modEnt (.thread t) fun se => { se with initial := false }).view = _
      rw [view_modEnt]
      simp
    refine enqueueEntity_fitted ?_ ?_ ?_ (fun g never => by cases never) run <;> rw [look]
    · exact { hier with }
    · exact hier.inside _
    · exact fitted.even ⟨rfl, rfl, rfl, rfl⟩
  | dequeue e flags run => exact dequeueEntity_fitted inv.core (hier.inside e) fitted run
  | putPrev t flags run =>
    obtain ⟨a, walk, rfl⟩ := Option.map_eq_some_iff.mp run
    have even := pssPutPrevWalk_even hier walk
    exact fitted.even ⟨even.joined, even.weight, even.shares, even.cls⟩
  | activate t run =>
    obtain ⟨a, walk, rfl⟩ := Option.map_eq_some_iff.mp run
    rw [view_emit, setTdState_view]
    exact fitted.even ((pssActivateWalk_even walk).trans ⟨rfl, rfl, rfl, rfl⟩)
  | mark ok view =>
    rw [view]
    exact fitted
  | uncount t run =>
    unfold rqRunRem at run
    split at run
    · cases run
    · cases run
      split <;> exact fitted.even ⟨rfl, rfl, rfl, rfl⟩
  | choose run =>
    rw [run]
    exact fitted
  | pick q e run =>
    rw [pickNextEntity_view run]
    exact fitted
  | rtActivate t run =>
    rw [(rtActivateThread_spec run).2.1]
    exact fitted.even ⟨rfl, rfl, rfl, rfl⟩

/-- No step does, but for new shares of a joined group. -/
theorem Micro.fitted (inv : Inv C s L d) (step : Micro C s s') (calm : C.calm) (fitted : s.view.Fitted) :
    s'.view.Fitted := by
  have core := inv.core
  have stored (t : Tid) (priClass : PriClass) (cls : SchedClass) : (storeClass s t priClass cls).view.Fitted := by
    rw [storeClass_view]
    exact fun g joined => fitted g joined
  cases step with
  | flow step => exact step.fitted inv fitted
  | recast t priClass cls run =>
    rw [run]
    exact stored _ _ _
  | switchedFrom t priClass cls run =>
    rw [run]
    unfold pssSwitchedFrom
    dsimp only
    split
    · rw [subVtime_view, placeEntity_view]
      exact stored _ _ _
    · exact stored _ _ _
  | switchedTo t priClass run =>
    rw [run, addVtime_view]
    exact stored _ _ _
  | weigh t run =>
    rw [run, setThreadWeight, view_modEnt]
    intro g joined
    exact fitted g (by simpa using joined)
  | nice p nice range run =>
    rw [run]
    exact fitted
  | move t onRq run =>
    rw [run]
    have moves {a : State} (same : a.view = s.view) : (setThreadRq a t).view.Fitted := by
      rw [setThreadRq_view, same]
      exact fitted.even ⟨rfl, rfl, rfl, rfl⟩
    unfold pssSchedGroupMove
    dsimp only
    split
    · rw [addVtime_view]
      exact moves (subVtime_view ..)
    · exact moves rfl
  | fork parent newProc stale run inside =>
    have born : (schedForkInit (forkAlloc s parent newProc) parent s.nthreads stale).view.Fitted := by
      rw [schedForkInit_view core inside]
      exact fun g joined => fitted g joined
    rw [run]
    unfold SfqSched.fork schedForkThread
    dsimp only
    split
    · rw [pssForkThread_view]
      exact born
    · exact born
  | exit t run =>
    rw [run, view_modProc, view_modTd]
    exact fun g joined => fitted g joined
  | setShares g shares run same =>
    intro h joined
    rw [run] at joined ⊢
    change (storeShares s g shares).view.joined (.group h) at joined
    change (storeShares s g shares).view.weight (.group h) = (storeShares s g shares).view.shares h
    rw [storeShares_view] at joined ⊢
    by_cases here : h = g
    · subst here
      have old := fitted h joined
      simpa [same calm joined] using old
    · simpa [here] using fitted h joined
  | create parent shares run inside =>
    intro g joined
    rw [run, schedGroupCreate_view core inside] at joined ⊢
    have other : g ≠ s.view.ngroups := by
      rintro rfl
      exact Bool.noConfusion (core.blank.joined.symm.trans joined)
    simpa [View.create, other] using fitted g joined
  | sysctl write tun new run =>
    rw [run]
    exact fitted

/-- Along every path on which joined groups keep their shares, their weights fit. -/
theorem Path.fitted (h : Path C s s') (calm : C.calm) (fitted : s.view.Fitted) : s'.view.Fitted := by
  induction h with
  | refl => exact fitted
  | step inv micro _ ih => exact ih (micro.fitted inv calm fitted)

end runs

/-- No share of a group is changed while the group competes. -/
def Conds.still : Conds := ⟨False, False, False, True, False, False⟩

/-- In a run that changes the shares of no group that competes, every group competes with its shares. -/
theorem group_weight (k : Kernel) (tun : Tunables) (ops : List Op) (s : State) (ran : run k tun ops = some s)
    (still : ∀ before g shares after a, ops = before ++ .setShares g shares :: after → run k tun before = some a →
      (a.ent (.group g)).joined → shares ≠ 0 ∧ clampShares shares = (a.grp g).shares) (g : Gid)
    (joined : (s.ent (.group g)).joined) : (s.ent (.group g)).load.weight = (s.grp g).shares := by
  have runs : Runs .still k tun ops s := by
    refine run_runs ops ran fun before op after a split there => ?_
    cases op with
    | schedClass t priClass => exact ⟨fun _ never => never.elim, fun never => never.elim⟩
    | fork p newProc stale => exact fun never => never.elim
    | setShares g shares => exact ⟨fun never => never.elim, fun _ => still before g shares after a split there⟩
    | nice p nice => exact id
    | _ => trivial
  have boot : (bootQueues k tun).view.Fitted := fun h there =>
    Bool.noConfusion ((bootQueues_bare k tun (.group h)).1.symm.trans there)
  exact runs.path.fitted trivial boot g joined

theorem group_weight_grouped :
    ∃ s, run plainKernel {} groupedWaiter = some s ∧ (s.ent (.group 1)).load.weight = (s.grp 1).shares := by
  have result : (run plainKernel {} groupedWaiter).map (fun s => (s.ent (.group 1)).joined) = some true := by
    decide +kernel
  obtain ⟨s, ran, joined⟩ := Option.map_eq_some_iff.mp result
  have none_asked (before after : List Op) (g : Gid) (shares : Nat) (split : groupedWaiter = before ++ .setShares g shares :: after) :
      False := by
    have member : Op.setShares g shares ∈ groupedWaiter := by
      rw [split]
      simp
    simp [groupedWaiter] at member
  refine ⟨s, ran, ?_⟩
  exact group_weight plainKernel {} groupedWaiter s ran
    (fun before g shares after _ split => (none_asked before after g shares split).elim) 1 joined

/-- The shares of a group with a queued thread are doubled. -/
def doubledShares : List Op := groupedWaiter ++ [.setShares 1 2048]

/-- The group goes on competing with its old weight. -/
theorem group_weight_stale :
    ¬ ∀ (k : Kernel) (tun : Tunables) (ops : List Op) (s : State), run k tun ops = some s →
      ∀ g, 0 < g → g < s.ngroups → (s.ent (.group g)).joined → (s.ent (.group g)).load.weight = (s.grp g).shares := by
  intro claimed
  have result : (run plainKernel {} doubledShares).map (fun s =>
      ((s.ent (.group 1)).joined, (s.ent (.group 1)).load.weight, (s.grp 1).shares, s.ngroups)) =
      some (true, 1024, 2048, 2) := by decide +kernel
  obtain ⟨s, ran, values⟩ := Option.map_eq_some_iff.mp result
  simp only [Prod.mk.injEq] at values
  obtain ⟨joined, weight, shares, ngroups⟩ := values
  have same := claimed _ _ _ s ran 1 Nat.one_pos (by rw [ngroups]; exact Nat.one_lt_two) joined
  rw [weight, shares] at same
  exact absurd same (by decide)

end SfqSched
