import SfqSched.UserPriEntity

namespace SfqSched
open State

/-- Entities above others are groups. -/
structure Groups (s : State) : Prop where
  parent : ∀ e p, (s.ent e).parent = some p → ∃ g, p = .group g
  se : ∀ g p, (s.grp g).se = some p → ∃ g', p = .group g'

/-- Groups stay owned by groups, so that each chain is a thread's entity and then groups. -/
theorem Writes.groups {r : Prop} {s s' : State} (writes : Writes r s s') (groups : Groups s) : Groups s' where
  parent e p up := by
    rcases writes.parent e with same | ⟨g, moved⟩
    · exact groups.parent e p (same ▸ up)
    · exact groups.se g p (moved ▸ up)
  se g p up := groups.se g p (writes.se g ▸ up)

/-- On its way up a thread passes groups only. -/
theorem Groups.chain {s : State} (groups : Groups s) (t : Tid) :
    ∀ e ∈ walkup s (some (.thread t)), e = .thread t ∨ ∃ g, e = .group g := by
  have above : ∀ (fuel : Nat) (o : Option EntId), (∀ p, o = some p → p = .thread t ∨ ∃ g, p = .group g) →
      ∀ e ∈ climb (fun e => (s.ent e).parent) fuel o, e = .thread t ∨ ∃ g, e = .group g := by
    intro fuel
    induction fuel with
    | zero => simp [climb]
    | succ fuel ih =>
      intro o first e member
      cases o with
      | none => simp [climb] at member
      | some p =>
        rcases List.mem_cons.mp member with rfl | above
        · exact first e rfl
        · exact ih _ (fun x up => .inr (groups.parent p x up)) e above
  exact above _ _ (by rintro p ⟨⟩; exact .inl rfl)

/-- A step that leaves the priorities alone and puts at most `t` on the CPU. -/
structure Starts (t : Tid) (s s' : State) : Prop extends Writes False s s', Keeps s s' where
  charged : ∀ u, s'.charged u → s.charged u ∨ u = t

namespace Starts
variable {t : Tid} {s s' s'' : State}

/-- A charge starts no thread, so it is a step of any start. -/
theorem of_charges (h : Charges False s s') : Starts t s s' :=
  ⟨h.toWrites, h.toKeeps, fun u current => .inl (h.charged u current)⟩

/-- Starts of one thread follow each other. -/
theorem trans (h : Starts t s s') (h' : Starts t s' s'') : Starts t s s'' where
  toKeeps := h.toKeeps.trans h'.toKeeps
  parent e := by
    rcases h'.parent e with same | ⟨g, moved⟩
    · rw [same]
      exact h.parent e
    · exact .inr ⟨g, moved.trans (h.se g)⟩
  se g := (h'.se g).trans (h.se g)
  priClass u := (h'.priClass u).trans (h.priClass u)
  base u := (h'.base u).trans (h.base u)
  lend u := (h'.lend u).trans (h.lend u)
  user u := by
    rcases h'.user u with same | ⟨never, _⟩
    · rw [same]
      exact h.user u
    · exact never.elim
  charged u current := (h'.charged u current).elim (h.charged u) .inr

/-- A start resets no priority, so nothing need be allowed for it. -/
theorem writes (h : Starts t s s') {r : Prop} : Writes r s s' :=
  { h with user := fun u => (h.user u).imp id fun never => never.1.elim }

/-- Nothing new runs if `t` was running all along. -/
theorem after {r : Prop} {a : State} (first : Moves r a s) (h : Starts t s s') (running : a.charged t) : Moves r a s' :=
  ⟨first.then_writes h.writes, fun u current =>
    (h.charged u current).elim (first.charged u) fun same => same ▸ running⟩

/-- The thread itself is the one that may start to run. -/
theorem setTdState (s : State) (t : Tid) (st : TdState) : Starts t s (setTdState s t st) := by
  refine ⟨⟨fun _ => .inl rfl, fun _ => rfl, ?_, ?_, ?_, ?_⟩, .same rfl rfl (fun _ => rfl) rfl, ?_⟩
  all_goals
    intro u
    by_cases here : u = t
    · subst here
      simp [SfqSched.setTdState, State.modTd]
    · simp [SfqSched.setTdState, State.modTd, State.charged, here]

/-- The current entity of a queue is the thread or a group of its chain. -/
theorem setCurr (s : State) (q : Gid) (e : EntId) (which : e = .thread t ∨ ∃ g, e = .group g) :
    Starts t s (s.modSfq q fun sfq => { sfq with curr := some e }) := by
  refine ⟨⟨fun _ => .inl rfl, fun _ => rfl, fun _ => rfl, fun _ => rfl, fun _ => rfl, fun _ => .inl rfl⟩,
    .modSfq _ _ _ rfl, ?_⟩
  rintro u (running | ⟨x, current⟩)
  · exact .inl (.inl running)
  · by_cases here : x = q
    · subst here
      have same : e = .thread u := by simpa [State.modSfq] using current
      rcases which with rfl | ⟨g, rfl⟩
      · cases same
        exact .inr rfl
      · cases same
    · exact .inl (.inr ⟨x, by simpa [State.modSfq, here] using current⟩)

end Starts

section pss
variable {s s' : State} {q : Gid} {e : EntId} {t : Tid} {flags : Nat}

/-- The counts are no priority. -/
theorem rqRunAdd_charges {r : Prop} (s : State) (t : Tid) : Charges r s (rqRunAdd s t) := by
  unfold rqRunAdd
  dsimp only
  split
  · exact .modRq ..
  · exact Charges.trans (.modRq ..) (.modRq ..)

theorem rqRunRem_charges {r : Prop} (run : rqRunRem s t = some s') : Charges r s s' := by
  unfold rqRunRem at run
  split at run
  · cases run
  · cases run
    have first : Charges r s ((s.emit (.subtract s.rq.nrRunning 1)).modRq fun rq =>
        { rq with nrRunning := rq.nrRunning - 1 }) := Charges.trans (.emit ..) (.modRq ..)
    split
    · exact first
    · exact first.trans (Charges.trans (.emit ..) (.modRq ..))

/-- To be asked for the CPU is no reset. -/
theorem checkPriorityPreempt_charges {r : Prop} (s : State) (t : Tid) : Charges r s (checkPriorityPreempt s t) :=
  .of_changes (checkPriorityPreempt_changes s t) Charges.free_asking

/-- Weights are brought up to date with the current entity charged, which may reset its priority. -/
theorem updateSharesWalk_charges (s : State) (chain : List EntId) : Charges True s (updateSharesWalk s chain) :=
  .foldl (fun s _ => updateSfqShares_charges s _) chain s

/-- Whoever runs when a thread is queued may be charged. -/
theorem pssEnqueueThread_charges (run : pssEnqueueThread s t flags = some s') : Charges True s s' := by
  have walk (chain : List EntId) (s : State) (flags : Nat) (s' : State)
      (run : pssEnqueueWalk s chain flags = some s') : Charges True s s' := by
    induction chain generalizing s flags with
    | nil =>
      cases run
      exact .refl _
    | cons se rest ih =>
      unfold pssEnqueueWalk at run
      split at run
      · cases run
        exact updateSharesWalk_charges ..
      · split at run
        · cases run
        · rename_i step
          exact (enqueueEntity_charges rfl step).trans (ih _ _ run)
  obtain ⟨a, first, rfl⟩ := Option.map_eq_some_iff.mp run
  exact (walk _ _ _ _ first).trans (rqRunAdd_charges ..)

theorem pssDequeueThread_charges (run : pssDequeueThread s t flags = some s') : Charges True s s' := by
  have walk (isSleep : Bool) (chain : List EntId) (s : State) (flags : Nat) (s' : State)
      (run : pssDequeueWalk isSleep s chain flags = some s') : Charges True s s' := by
    induction chain generalizing s flags with
    | nil =>
      cases run
      exact .refl _
    | cons se rest ih =>
      unfold pssDequeueWalk at run
      dsimp only at run
      split at run
      · cases run
      · rename_i step
        have first := dequeueEntity_charges rfl step
        split at run
        · cases run
          refine (first.trans ?_).trans (updateSharesWalk_charges ..)
          split
          · exact setNextCandidate_charges ..
          · exact .refl _
        · exact first.trans (ih _ _ run)
  obtain ⟨a, first, last⟩ := Option.bind_eq_some_iff.mp run
  exact (walk _ _ _ _ _ first).trans (rqRunRem_charges last)

/-- The thread that is put back is charged, and starts nothing. -/
theorem pssPutPrevThread_charges (run : pssPutPrevThread s t flags = some s') : Charges True s s' := by
  have walk (chain : List EntId) (s s' : State) (run : pssPutPrevWalk s chain flags = some s') :
      Charges True s s' := by
    induction chain generalizing s with
    | nil =>
      cases run
      exact .refl _
    | cons se rest ih =>
      unfold pssPutPrevWalk at run
      split at run
      · cases run
      · rename_i step
        exact (putPrevEntity_charges rfl step).trans (ih _ run)
  obtain ⟨a, first, rfl⟩ := Option.map_eq_some_iff.mp run
  exact (walk _ _ _ first).trans (.emit ..)

/-- The thread or a group above it becomes current. -/
theorem activateEntity_starts (own : (s.ent e).sfq = q) (which : e = .thread t ∨ ∃ g, e = .group g) (run : activateEntity s q e = some s') :
    Starts t s s' := by
  unfold activateEntity at run
  split at run
  · dsimp only at run
    obtain ⟨a, out, run⟩ := Option.bind_eq_some_iff.mp run
    split at run
    · cases run
      have boosted := dropBoost_charges (r := False) s e
      have left := (boosted.trans (rawDequeueEntity_charges _ _ _ ((boosted.place e).trans own) out)).trans
        (.emit a (.activate q e a.rq.clockThread))
      refine ((Starts.of_charges left).trans (.setCurr _ q e which)).trans ?_
      exact .of_charges (.modEnt _ _ _ ⟨rfl, rfl, rfl⟩)
    · cases run
  · cases run

/-- Only the thread that gets the CPU starts to run. -/
theorem pssActivateThread_starts (groups : Groups s) (run : pssActivateThread s t = some s') : Starts t s s' := by
  have walk (chain : List EntId) (s s' : State) (which : ∀ e ∈ chain, e = .thread t ∨ ∃ g, e = .group g)
      (run : pssActivateWalk s chain = some s') : Starts t s s' := by
    induction chain generalizing s with
    | nil =>
      cases run
      exact .of_charges (.refl _)
    | cons se rest ih =>
      unfold pssActivateWalk at run
      split at run
      · cases run
      · rename_i step
        exact (activateEntity_starts rfl (which se (List.mem_cons_self ..)) step).trans
          (ih _ (fun e member => which e (List.mem_cons_of_mem _ member)) run)
  obtain ⟨a, first, rfl⟩ := Option.map_eq_some_iff.mp run
  exact ((walk _ _ _ (groups.chain t) first).trans (.setTdState ..)).trans (.of_charges (.emit ..))

/-- The choice charges nobody. -/
theorem pssPickNextThread_charges {r : Prop} {picked : Option Tid} (run : pssPickNextThread s = some (picked, s')) :
    Charges r s s' := .of_changes (pssPickNextThread_changes run) Charges.free_picking

theorem setTdPriority_charges {r : Prop} (s : State) (t : Tid) (prio : Nat) :
    Charges r s (s.modTd t fun td => { td with tdPriority := prio }) :=
  .modTd _ _ _ ⟨rfl, rfl, rfl, rfl⟩ id

/-- The priority that this stores is not the one of user mode. -/
theorem pssChangePriority_charges {r : Prop} {prio : Nat} (run : pssChangePriority s t prio = some s') :
    Charges r s s' := by
  unfold pssChangePriority at run
  split at run
  · have first := (rawRunqDequeue_charges (r := r) s t).trans (setTdPriority_charges _ t prio)
    dsimp only at run
    split at run
    · obtain ⟨a, boost, run⟩ := Option.bind_eq_some_iff.mp run
      cases run
      exact (first.trans (rawRunqEnqueue_charges _ boost)).trans (checkPriorityPreempt_charges ..)
    · cases run
      exact first.trans (checkPriorityPreempt_charges ..)
  · cases run
    exact setTdPriority_charges ..

theorem preemptCurr_charges {r : Prop} (s : State) (ctd : Tid) (e : EntId) (scale : Bool) :
    Charges r s (preemptCurr s ctd e scale) := .of_changes (preemptCurr_changes s ctd e scale) Charges.free_urging

/-- The current entity is charged before it is compared. -/
theorem pssCheckPreemptCurr_charges (run : pssCheckPreemptCurr s t = some s') : Charges True s s' := by
  unfold pssCheckPreemptCurr at run
  dsimp only at run
  split at run
  · cases run
    exact .refl s
  · split at run
    · cases run
      exact preemptCurr_charges ..
    · obtain ⟨⟨curr, se⟩, _, rfl⟩ := Option.map_eq_some_iff.mp run
      have first := (updateCurr_charges s (s.ent curr).sfq).trans (wakeupPreemptEntity_charges curr se)
      dsimp only
      split
      · exact first.trans ((setNextCandidate_charges ..).trans (preemptCurr_charges ..))
      · exact first

theorem checkPreemptTick_charges {r : Prop} (s : State) (q : Gid) (e : EntId) : Charges r s (checkPreemptTick s q e) :=
  .of_changes (checkPreemptTick_changes s q e) Charges.free_urging

/-- A tick charges each current entity on the chain. -/
theorem pssTickThread_charges (s : State) (t : Tid) : Charges True s (pssTickThread s t) := by
  refine .foldl (fun s se => ?_) _ s
  unfold entityTick
  dsimp only
  split
  · exact (updateCurr_charges ..).trans (checkPreemptTick_charges ..)
  · exact updateCurr_charges ..

/-- The parent is charged before its child gets the vruntime. -/
theorem pssForkThread_charges (s : State) (parent child : Tid) : Charges True s (pssForkThread s parent child) := by
  have place (s : State) : Charges True s (pssForkPlace s parent child) := by
    unfold pssForkPlace
    refine Charges.trans (Charges.trans ?_ (.modEnt _ _ _ ⟨rfl, rfl, rfl⟩)) (placeEntityInitial_charges ..)
    exact (updateRqClock_charges ..).trans (updateCurr_charges ..)
  have swap (s : State) : Charges True s (pssForkSwap s parent child) := by
    unfold pssForkSwap
    refine Charges.trans (Charges.trans ?_ (.modEnt _ _ _ ⟨rfl, rfl, rfl⟩)) (reschedThread_charges ..)
    exact Charges.trans (.modEnt _ _ _ ⟨rfl, rfl, rfl⟩) (.emit ..)
  unfold pssForkThread
  refine Charges.trans (Charges.trans ?_ (.modEnt _ _ _ ⟨rfl, rfl, rfl⟩)) (.emit ..)
  split
  · exact (place s).trans (swap _)
  · exact place s

theorem pssSwitchedFrom_charges {r : Prop} (s : State) (t : Tid) : Charges r s (pssSwitchedFrom s t) :=
  .of_changes (pssSwitchedFrom_changes s t) Charges.free_timing

theorem setThreadRq_moves {r : Prop} (s : State) (t : Tid) : Moves r s (setThreadRq s t) := by
  refine ⟨⟨fun e => ?_, fun _ => rfl, fun _ => rfl, fun _ => rfl, fun _ => rfl, fun _ => .inl rfl⟩, fun _ => id⟩
  by_cases here : e = .thread t
  · subst here
    exact .inr ⟨(s.td t).group, by simp [setThreadRq, State.modEnt]⟩
  · exact .inl (by simp [setThreadRq, State.modEnt, here])

/-- A moved thread changes its queue, so this is no mere charge. -/
theorem pssSchedGroupMove_moves {r : Prop} (s : State) (t : Tid) (onRq : Bool) :
    Moves r s (pssSchedGroupMove s t onRq) := by
  unfold pssSchedGroupMove
  dsimp only
  split
  · exact ((subVtime_charges ..).toMoves.trans (setThreadRq_moves ..)).trans (addVtime_charges ..).toMoves
  · exact setThreadRq_moves ..

theorem pssSchedGroupSetShares_charges (s : State) (g : Gid) (shares : Nat) :
    Charges True s (pssSchedGroupSetShares s g shares).2 := by
  unfold pssSchedGroupSetShares
  split
  · exact .refl s
  · have first : Charges True s
        (if shares = 0 then s.modGrp g fun sg => { sg with shares := nice0Weight } else s) := by
      split
      · exact .modGrp _ _ _ rfl rfl
      · exact .refl s
    dsimp only
    generalize (if shares = 0 then s.modGrp g fun sg => { sg with shares := nice0Weight } else s) = a at first ⊢
    generalize (if shares = 0 then shares else clampShares shares) = stored
    split
    · exact first
    · exact first.trans (Charges.trans (.modGrp _ _ _ rfl rfl) (updateSharesWalk_charges ..))

end pss
end SfqSched
