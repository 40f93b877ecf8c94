import SfqSched.ChoiceFrame
import SfqSched.PssView

namespace SfqSched
open State Function

section footprints

/-- What the class hooks write that queue a thread or give it the CPU, but for `rq->leaf_sfq_list`. -/
def dispatching : Cell → Bool
  | .candidates | .curr | .counts | .joined | .rtCurr | .clock | .reads => true
  | c => weighing c || queueing c

/-- What the operations write that neither make nor end a thread or a group, nor move a thread. -/
def scheduling : Cell → Bool
  | .curthread | .asked | .initial | .priority | .cls | .proc | .shares => true
  | c => dispatching c

/-- A queue's own bookkeeping is a part of what the class hooks write. -/
theorem charging_dispatching : charging ≤ dispatching := fun c => by cases c <;> decide
theorem weighing_dispatching : weighing ≤ dispatching := fun c => by cases c <;> decide
theorem timing_dispatching : timing ≤ dispatching := fun c => by cases c <;> decide
theorem boosting_dispatching : boosting ≤ dispatching := fun c => by cases c <;> decide
theorem queueing_dispatching : queueing ≤ dispatching := fun c => by cases c <;> decide
theorem marking_dispatching : marking ≤ dispatching := fun c => by cases c <;> decide
theorem picking_dispatching : picking ≤ dispatching := fun c => by cases c <;> decide
theorem ticking_dispatching : ticking ≤ dispatching := fun c => by cases c <;> decide
theorem preempting_scheduling : preempting ≤ scheduling := fun c => by cases c <;> decide
theorem asking_scheduling : asking ≤ scheduling := fun c => by cases c <;> decide

/-- What the class hooks write is a part of what the operations write. -/
theorem dispatching_scheduling : dispatching ≤ scheduling := fun c => by cases c <;> decide

end footprints

section entity
variable {s s' : State} {q : Gid} {e : EntId} {t : Tid} {flags : Nat}

/-- Off the realtime queue, if a boost put the thread there. -/
theorem runqDequeueEntity_changes (s : State) (e : EntId) : Changes shelving s (runqDequeueEntity s e) := by
  unfold runqDequeueEntity
  split
  · exact rawRunqDequeue_changes ..
  · exact .refl s

/-- The entity that had the CPU is charged, goes back to its timeline, and leaves its queue
without a current entity. -/
theorem putPrevEntity_changes (run : putPrevEntity s q e flags = some s') : Changes dispatching s s' := by
  have release (a : State) : Changes dispatching a (putPrevRelease a q e) := .trans (.emit _ _ rfl) (.modSfq _ _ _ rfl)
  rcases putPrevEntity_parts run with ⟨_, rfl⟩ | ⟨_, a, b, first, second, rfl⟩
  · exact release s
  · have charge : Changes dispatching s (putPrevCharge s q e flags) :=
      .trans (.ite ((setSkipWalk_changes ..).mono marking_dispatching) (.refl s))
        ((updateCurr_changes ..).mono charging_dispatching)
    have back := ((setRunq_changes first).mono boosting_queueing).trans (rawEnqueueEntity_changes second)
    exact (charge.trans (back.mono queueing_dispatching)).trans (release b)

/-- The entity that gets the CPU leaves its timeline and becomes the current one. -/
theorem activateEntity_changes (run : activateEntity s q e = some s') : Changes dispatching s s' := by
  obtain ⟨_, a, first, _, rfl⟩ := activateEntity_parts run
  have off := ((runqDequeueEntity_changes s e).mono (shelving_boosting.trans boosting_queueing)).trans (rawDequeueEntity_changes first)
  exact (off.mono queueing_dispatching).trans (.trans (.trans (.emit _ _ rfl) (.modSfq _ _ _ rfl)) (.modEnt _ _ _ rfl))

/-- What `enqueue_entity` does with the vruntime, before the entity is in a timeline. -/
theorem enqueueVruntime_changes (s : State) (q : Gid) (e : EntId) (flags : Nat) :
    Changes charging s (enqueueVruntime s q e flags) := by
  have before : Changes charging s (if flags &&& enqueueWakeup = 0 then addVtime s q e else s) :=
    .ite ((addVtime_changes ..).mono timing_charging) (.refl s)
  have charged := before.trans (updateCurr_changes _ q)
  exact charged.trans (.ite ((placeEntity_changes ..).mono timing_charging) (.refl _))

/-- `enqueue_entity` puts its queue on `rq->leaf_sfq_list`, if at all, and leaves the list alone before and after. -/
theorem enqueueEntity_lists (run : enqueueEntity s q e flags = some s') :
    ∃ a, Changes dispatching s a ∧ (Changes dispatching a s' ∨ Changes dispatching (addLeafSfq a q) s') := by
  obtain ⟨_, a, b, first, second, rfl⟩ := enqueueEntity_parts run
  have placed := (enqueueVruntime_changes s q e flags).mono charging_dispatching
  have queued := ((setRunq_changes first).mono boosting_dispatching).trans
    ((rawEnqueueEntity_changes second).mono queueing_dispatching)
  have counted := (((accountEntityEnqueue_changes b q e).mono accounting_weighing).trans
    (updateSfqShares_changes _ q)).mono weighing_dispatching
  have joined (c : State) : Changes dispatching c ((c.emit (.join q e)).modEnt e fun ent => { ent with joined := true }) :=
    .trans (.emit _ _ rfl) (.modEnt _ _ _ rfl)
  refine ⟨_, (placed.trans queued).trans counted, ?_⟩
  unfold enqueueAccount
  dsimp only
  split
  · exact .inr (joined _)
  · exact .inl (joined _)

/-- The first entity on a queue that no entity stands for puts the queue on the list. -/
theorem enqueueEntity_first (empty : (s.sfq q).nrRunning = 0) (top : (s.grp (s.sfq q).group).se = none)
    (run : enqueueEntity s q e flags = some s') :
    ∃ a, Changes dispatching s a ∧ Changes dispatching (addLeafSfq a q) s' := by
  obtain ⟨_, a, b, first, second, rfl⟩ := enqueueEntity_parts run
  have placed := enqueueVruntime_changes s q e flags
  have queued := ((setRunq_changes first).mono boosting_queueing).trans (rawEnqueueEntity_changes second)
  have counted := (accountEntityEnqueue_changes b q e).mono accounting_weighing
  have before := ((placed.mono charging_dispatching).trans (queued.mono queueing_dispatching)).trans
    (counted.mono weighing_dispatching)
  have nr : (b.sfq q).nrRunning = 0 := by
    rw [queued.read (fun s => (s.sfq q).nrRunning) fun _ => rfl, placed.read (fun s => (s.sfq q).nrRunning) fun _ => rfl]
    exact empty
  have one : ((accountEntityEnqueue b q e).sfq q).nrRunning = 1 := by
    have more : ((accountEntityEnqueue b q e).sfq q).nrRunning = (b.sfq q).nrRunning + 1 := by
      unfold accountEntityEnqueue
      dsimp only
      split <;> simp [modSfq, modRq]
    rw [more, nr]
  have alone : updateSfqShares (accountEntityEnqueue b q e) q = accountEntityEnqueue b q e := by
    have none_there : ((accountEntityEnqueue b q e).grp ((accountEntityEnqueue b q e).sfq q).group).se = none :=
      (before.read (fun s => (s.grp (s.sfq q).group).se) fun _ => rfl).trans top
    unfold updateSfqShares
    dsimp only
    rw [none_there]
  refine ⟨_, before, ?_⟩
  unfold enqueueAccount
  dsimp only
  rw [alone, if_pos one]
  exact .trans (.emit _ _ rfl) (.modEnt _ _ _ rfl)

/-- All that `enqueue_entity` writes, `rq->leaf_sfq_list` included. -/
theorem enqueueEntity_changes (run : enqueueEntity s q e flags = some s') : Changes (dispatching ⊔ listing) s s' := by
  obtain ⟨a, before, after⟩ := enqueueEntity_lists run
  refine (before.mono le_sup_left).trans ?_
  rcases after with same | added
  · exact same.mono le_sup_left
  · exact ((addLeafSfq_changes ..).mono le_sup_right).trans (added.mono le_sup_left)

/-- `dequeue_entity` never takes its queue off `rq->leaf_sfq_list`; only the end of a group does. -/
theorem dequeueEntity_changes (run : dequeueEntity s q e flags = some s') : Changes dispatching s s' := by
  by_cases joined : s.view.joined e
  · obtain ⟨a, first, rfl⟩ := dequeueEntity_parts run joined
    have cleared : Changes dispatching s (dequeueClear s q e) :=
      (((updateCurr_changes s q).mono charging_dispatching).trans
        ((runqDequeueEntity_changes ..).mono (shelving_boosting.trans boosting_dispatching))).trans
          ((clearCandidates_changes ..).mono marking_dispatching)
    have left : Changes queueing (dequeueClear s q e) a :=
      .optional (f := fun s => rawDequeueEntity s q e) rawDequeueEntity_changes first
    have counted : Changes dispatching a (accountEntityDequeue a q e) :=
      (accountEntityDequeue_changes ..).mono (accounting_weighing.trans weighing_dispatching)
    refine ((cleared.trans (left.mono queueing_dispatching)).trans counted).trans ?_
    refine .trans (.trans ?_ ((updateSfqVtime_changes ..).mono timing_dispatching))
      ((updateSfqShares_changes ..).mono weighing_dispatching)
    have apart (s : State) : Changes dispatching s
        ((s.emit (.leave q e)).modEnt e fun ent => { ent with joined := false }) :=
      .trans (.emit _ _ rfl) (.modEnt _ _ _ rfl)
    exact (apart _).trans (.ite ((subVtime_changes ..).mono timing_dispatching) (.refl _))
  · rw [dequeueEntity_apart run (by simpa using joined)]
    exact .refl s

end entity

section hooks
variable {s s' : State} {t : Tid} {flags : Nat}

/-- The walk of `pss_enqueue_thread` puts a queue on the list at each level at most. -/
theorem pssEnqueueWalk_changes {chain : List EntId} (run : pssEnqueueWalk s chain flags = some s') :
    Changes (dispatching ⊔ listing) s s' := by
  induction chain generalizing s flags with
  | nil => exact .of_eq (Option.some.inj run).symm
  | cons e rest ih =>
    unfold pssEnqueueWalk at run
    split at run
    · cases run
      exact (updateSharesWalk_changes ..).mono (weighing_dispatching.trans le_sup_left)
    · split at run
      · cases run
      · rename_i step
        exact (enqueueEntity_changes step).trans (ih run)

/-- Where the walk of `pss_dequeue_thread` stops it may leave a next candidate. -/
theorem pssDequeueWalk_changes {isSleep : Bool} {chain : List EntId}
    (run : pssDequeueWalk isSleep s chain flags = some s') : Changes dispatching s s' := by
  induction chain generalizing s flags with
  | nil => exact .of_eq (Option.some.inj run).symm
  | cons e rest ih =>
    unfold pssDequeueWalk at run
    dsimp only at run
    split at run
    · cases run
    · rename_i a step
      have first := dequeueEntity_changes step
      split at run
      · cases run
        refine (first.trans ?_).trans ((updateSharesWalk_changes ..).mono weighing_dispatching)
        split
        · exact (setNextCandidate_changes ..).mono marking_dispatching
        · exact .refl _
      · exact first.trans (ih run)

theorem pssPutPrevWalk_changes {chain : List EntId} (run : pssPutPrevWalk s chain flags = some s') :
    Changes dispatching s s' := by
  induction chain generalizing s with
  | nil => exact .of_eq (Option.some.inj run).symm
  | cons e rest ih =>
    unfold pssPutPrevWalk at run
    split at run
    · cases run
    · rename_i step
      exact (putPrevEntity_changes step).trans (ih run)

theorem pssActivateWalk_changes {chain : List EntId} (run : pssActivateWalk s chain = some s') :
    Changes dispatching s s' := by
  induction chain generalizing s with
  | nil => exact .of_eq (Option.some.inj run).symm
  | cons e rest ih =>
    unfold pssActivateWalk at run
    split at run
    · cases run
    · rename_i step
      exact (activateEntity_changes step).trans (ih run)

/-- `rq_run_add` counts, `rq_run_rem` uncounts. -/
theorem rqRunAdd_changes (s : State) (t : Tid) : Changes dispatching s (rqRunAdd s t) := by
  have first : Changes dispatching s (s.modRq fun rq => { rq with nrRunning := rq.nrRunning + 1 }) := .modRq _ _ rfl
  exact .ite first (first.trans (.modRq _ _ rfl))

theorem rqRunRem_changes (run : rqRunRem s t = some s') : Changes dispatching s s' := by
  unfold rqRunRem at run
  split at run
  · cases run
  · cases run
    have first (ev : Event) : Changes dispatching s ((s.emit ev).modRq fun rq => { rq with nrRunning := rq.nrRunning - 1 }) :=
      .trans (.emit _ _ rfl) (.modRq _ _ rfl)
    exact .ite (first _) ((first _).trans (.trans (.emit _ _ rfl) (.modRq _ _ rfl)))

theorem pssEnqueueThread_changes (run : pssEnqueueThread s t flags = some s') : Changes (dispatching ⊔ listing) s s' := by
  obtain ⟨a, walk, rfl⟩ := Option.map_eq_some_iff.mp run
  exact (pssEnqueueWalk_changes walk).trans ((rqRunAdd_changes a t).mono le_sup_left)

theorem pssDequeueThread_changes (run : pssDequeueThread s t flags = some s') : Changes dispatching s s' := by
  obtain ⟨a, walk, rem⟩ := Option.bind_eq_some_iff.mp run
  exact (pssDequeueWalk_changes walk).trans (rqRunRem_changes rem)

theorem pssPutPrevThread_changes (run : pssPutPrevThread s t flags = some s') : Changes dispatching s s' := by
  obtain ⟨a, walk, rfl⟩ := Option.map_eq_some_iff.mp run
  exact (pssPutPrevWalk_changes walk).trans (.emit _ _ rfl)

theorem pssActivateThread_changes (run : pssActivateThread s t = some s') : Changes dispatching s s' := by
  obtain ⟨a, walk, rfl⟩ := Option.map_eq_some_iff.mp run
  exact (pssActivateWalk_changes walk).trans (.trans (.modTd _ _ _ rfl) (.emit _ _ rfl))

/-- A realtime thread that is still runnable goes back to the realtime queue. -/
theorem rtPutPrevThread_changes (run : rtPutPrevThread s t flags = some s') : Changes dispatching s s' := by
  unfold rtPutPrevThread at run
  split at run
  · split at run
    · cases run
    · cases run
      have queued (b : Bool) : Changes dispatching s ((runqAdd (setTdState s t .runq) t b).modEnt (.thread t)
          fun se => { se with onRunq := true }) := .trans (.trans (.modTd _ _ _ rfl) (.modRq _ _ rfl)) (.modEnt _ _ _ rfl)
      exact (queued _).trans (.modRq _ _ rfl)
  · cases run
    exact .modRq _ _ rfl

/-- A realtime thread that gets the CPU leaves the realtime queue. -/
theorem rtActivateThread_changes (run : rtActivateThread s t = some s') : Changes dispatching s s' := by
  obtain ⟨_, same⟩ := Option.ite_none_right_eq_some.mp run
  cases same
  have off : Changes dispatching s (runqRemove s t) := .modRq _ _ rfl
  exact (((off.trans (.modEnt _ _ _ rfl)).trans (.setReads _ _ rfl)).trans (.modRq _ _ rfl)).trans (.modTd _ _ _ rfl)

theorem rtEnqueueThread_changes (run : rtEnqueueThread s t flags = some s') : Changes dispatching s s' := by
  obtain ⟨_, same⟩ := Option.ite_none_left_eq_some.mp run
  cases same
  have queued (b : Bool) : Changes dispatching s ((runqAdd s t b).modEnt (.thread t) fun se => { se with onRunq := true }) :=
    .trans (.modRq _ _ rfl) (.modEnt _ _ _ rfl)
  exact (((queued _).trans (.modTd _ _ _ rfl)).trans (rqRunAdd_changes ..)).trans (.modEnt _ _ _ rfl)

/-- A realtime thread that runs is not on the realtime queue; one that waits is taken off. -/
theorem rtDequeueThread_changes (run : rtDequeueThread s t = some s') : Changes dispatching s s' := by
  unfold rtDequeueThread at run
  split at run
  · obtain ⟨a, out, run⟩ := Option.bind_eq_some_iff.mp run
    split at run
    · cases run
    · cases run
      have off := (rawRunqDequeue_changes s t).mono (shelving_boosting.trans boosting_dispatching)
      exact (off.trans (rqRunRem_changes out)).trans (.modEnt _ _ _ rfl)
  · exact .of_eq (Option.some.inj run).symm

/-- Of the classes only `pss_class` keeps queues that can be on `rq->leaf_sfq_list`. -/
theorem classEnqueueThread_changes {cls : SchedClass} (run : classEnqueueThread cls s t flags = some s') :
    Changes (dispatching ⊔ listing) s s' := by
  cases cls with
  | realtime => exact (rtEnqueueThread_changes run).mono le_sup_left
  | pss => exact pssEnqueueThread_changes run
  | idle => exact .of_eq (Option.some.inj run).symm

/-- No class takes a queue off the list when a thread leaves. -/
theorem classDequeueThread_changes {cls : SchedClass} (run : classDequeueThread cls s t flags = some s') :
    Changes dispatching s s' := by
  cases cls with
  | realtime => exact rtDequeueThread_changes run
  | pss => exact pssDequeueThread_changes run
  | idle => exact .of_eq (Option.some.inj run).symm

theorem classPutPrevThread_changes {cls : SchedClass} (run : classPutPrevThread cls s t flags = some s') :
    Changes dispatching s s' := by
  cases cls with
  | realtime => exact rtPutPrevThread_changes run
  | pss => exact pssPutPrevThread_changes run
  | idle =>
    cases run
    exact .modTd _ _ _ rfl

theorem classActivateThread_changes {cls : SchedClass} (run : classActivateThread cls s t = some s') :
    Changes dispatching s s' := by
  cases cls with
  | realtime => exact rtActivateThread_changes run
  | pss => exact pssActivateThread_changes run
  | idle =>
    cases run
    exact .modTd _ _ _ rfl

/-- The clock is read before the class is asked. -/
theorem enqueueThread_changes (run : enqueueThread s t flags = some s') : Changes (dispatching ⊔ listing) s s' :=
  ((updateRqClock_changes s).mono (ticking_dispatching.trans le_sup_left)).trans (classEnqueueThread_changes run)

theorem dequeueThread_changes (run : dequeueThread s t flags = some s') : Changes dispatching s s' :=
  ((updateRqClock_changes s).mono ticking_dispatching).trans (classDequeueThread_changes run)

/-- The clock is read for a joined thread only. -/
theorem putPrevThread_changes (run : putPrevThread s t flags = some s') : Changes dispatching s s' := by
  have clock : Changes dispatching s (if (s.ent (.thread t)).joined then updateRqClock s else s) :=
    .ite ((updateRqClock_changes s).mono ticking_dispatching) (.refl s)
  exact clock.trans (classPutPrevThread_changes run)

theorem activateThread_changes (run : activateThread s t = some s') : Changes dispatching s s' :=
  classActivateThread_changes run

end hooks

section choice
variable {s s' : State} {t : Tid} {flags : Nat}

/-- The choice walks down the candidates and then starts what it has found. -/
theorem schedChoose_changes {u : Tid} (run : schedChoose s = some (u, s')) : Changes dispatching s s' := by
  have begun : Changes dispatching s (s.emit .choose) := .emit _ _ rfl
  unfold schedChoose at run
  dsimp only at run
  split at run
  · obtain ⟨b, act, done⟩ := Option.map_eq_some_iff.mp run
    cases done
    exact begun.trans (classActivateThread_changes act)
  · obtain ⟨⟨picked, c⟩, pick, chosen⟩ := Option.bind_eq_some_iff.mp run
    obtain ⟨b, act, done⟩ := Option.map_eq_some_iff.mp chosen
    cases done
    have chosen := (pssPickNextThread_changes pick).mono picking_dispatching
    exact (begun.trans chosen).trans (classActivateThread_changes act)

/-- Beyond the choice, `choosethread` stores the thread as the current one. -/
theorem chooseThread_changes (run : chooseThread s = some s') : Changes scheduling s s' := by
  obtain ⟨⟨u, a⟩, chosen, rfl⟩ := Option.map_eq_some_iff.mp run
  exact (((schedChoose_changes chosen).mono dispatching_scheduling).trans (.modTd _ u _ rfl)).trans (.setCurthread _ _ rfl)

/-- A switch takes the old thread off if it no longer runs, puts it back otherwise, and chooses. -/
theorem schedSwitch_changes (run : schedSwitch s t flags = some s') : Changes scheduling s s' := by
  have begun : Changes scheduling s (s.modTd t fun td => { td with needResched := false, owePreempt := false }) :=
    .modTd _ _ _ rfl
  unfold schedSwitch at run
  dsimp only at run
  split at run
  · obtain ⟨a, put, choose⟩ := Option.bind_eq_some_iff.mp run
    exact (begun.trans ((putPrevThread_changes put).mono dispatching_scheduling)).trans (chooseThread_changes choose)
  · obtain ⟨a, deq, run⟩ := Option.bind_eq_some_iff.mp run
    obtain ⟨b, put, choose⟩ := Option.bind_eq_some_iff.mp run
    have left := (dequeueThread_changes deq).trans (putPrevThread_changes put)
    exact (begun.trans (left.mono dispatching_scheduling)).trans (chooseThread_changes choose)

/-- `sched_throw` is a switch that ends the thread in its middle. -/
theorem schedThrow_changes (run : schedThrow s t = some s') :
    ∃ a, Changes scheduling s a ∧ Changes scheduling (a.modTd t fun td => { td with tdState := .inactive, exited := true }) s' := by
  obtain ⟨a, deq, run⟩ := Option.bind_eq_some_iff.mp run
  obtain ⟨b, put, choose⟩ := Option.bind_eq_some_iff.mp run
  refine ⟨b, ((dequeueThread_changes deq).trans (putPrevThread_changes put)).mono dispatching_scheduling, ?_⟩
  exact .trans (.modProc _ _ _ rfl) (chooseThread_changes choose)

end choice

section preempt
variable {s s' : State} {t : Tid} {flags : Nat}

theorem reschedThread_scheduling (s : State) (t : Tid) : Changes scheduling s (reschedThread s t) :=
  (reschedThread_changes s t).mono asking_scheduling

/-- A thread that comes to `pss_class` may ask for the CPU. -/
theorem pssSwitchedTo_changes (run : pssSwitchedTo s t = some s') : Changes scheduling s s' := by
  unfold pssSwitchedTo at run
  split at run
  · exact Option.some.inj run ▸ (addVtime_changes ..).mono (timing_dispatching.trans dispatching_scheduling)
  · split at run
    · exact Option.some.inj run ▸ reschedThread_scheduling ..
    · exact (checkPreemptCurr_changes run).mono preempting_scheduling

theorem checkClassChanged_changes {prev : SchedClass} (run : checkClassChanged s t prev = some s') :
    Changes scheduling s s' := by
  unfold checkClassChanged at run
  split at run
  · exact .of_eq (Option.some.inj run).symm
  · have left : Changes scheduling s (if prev = .pss then pssSwitchedFrom s t else s) :=
      .ite ((pssSwitchedFrom_changes s t).mono (timing_dispatching.trans dispatching_scheduling)) (.refl s)
    exact left.trans (.optional (f := fun s => pssSwitchedTo s t) pssSwitchedTo_changes run)

end preempt
end SfqSched
