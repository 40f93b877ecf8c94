import SfqSched.UserPriClass

namespace SfqSched
open State

section classes
variable {s s' : State} {t : Tid} {flags : Nat} {cls : SchedClass}

/-- Realtime threads have no time to be charged for, and no priority that is reset. -/
theorem rtPutPrevThread_charges {r : Prop} (run : rtPutPrevThread s t flags = some s') : Charges r s s' := by
  unfold rtPutPrevThread at run
  split at run
  · split at run
    · cases run
    · cases run
      refine Charges.trans ?_ (.modRq ..)
      exact ((setTdState_charges s t .runq (by simp)).trans (runqAdd_charges ..)).trans (.modEnt _ _ _ ⟨rfl, rfl, rfl⟩)
  · cases run
    exact .modRq ..

/-- Only the thread that gets the CPU starts to run. -/
theorem rtActivateThread_starts (run : rtActivateThread s t = some s') : Starts t s s' := by
  unfold rtActivateThread at run
  dsimp only at run
  split at run
  · cases run
    have first : Charges False s ((runqRemove s t).modEnt (.thread t) fun se =>
        { se with onRunq := false, timingStart := s.kernel.schedTimeCpu s.reads,
                  prevSumExecTime := se.sumExecTime }) :=
      (runqRemove_charges ..).trans (.modEnt _ _ _ ⟨rfl, rfl, rfl⟩)
    have second (s : State) (n : Nat) : Charges False s { s with reads := n } :=
      .of_same (fun _ => rfl) (fun _ => rfl) rfl (fun _ _ => id) (.same rfl rfl (fun _ => rfl) rfl)
    exact (Starts.of_charges ((first.trans (second _ _)).trans (.modRq ..))).trans (.setTdState ..)
  · cases run

theorem rtEnqueueThread_charges {r : Prop} (run : rtEnqueueThread s t flags = some s') : Charges r s s' := by
  unfold rtEnqueueThread at run
  dsimp only at run
  split at run
  · cases run
  · cases run
    have first : Charges r s (setTdState ((runqAdd s t (decide (flags &&& enqueueHead ≠ 0))).modEnt (.thread t)
        fun se => { se with onRunq := true }) t .runq) :=
      Charges.trans ((runqAdd_charges ..).trans (.modEnt _ _ _ ⟨rfl, rfl, rfl⟩)) (setTdState_charges _ _ _ (by simp))
    exact (first.trans (rqRunAdd_charges ..)).trans (.modEnt _ _ _ ⟨rfl, rfl, rfl⟩)

theorem rtDequeueThread_charges {r : Prop} (run : rtDequeueThread s t = some s') : Charges r s s' := by
  unfold rtDequeueThread at run
  split at run
  · obtain ⟨a, out, run⟩ := Option.bind_eq_some_iff.mp run
    split at run
    · cases run
    · cases run
      exact ((rawRunqDequeue_charges ..).trans (rqRunRem_charges out)).trans (.modEnt _ _ _ ⟨rfl, rfl, rfl⟩)
  · cases run
    exact .refl s

theorem rtChangePriority_charges {r : Prop} {prio : Nat} (run : rtChangePriority s t prio = some s') :
    Charges r s s' := by
  unfold rtChangePriority at run
  split at run
  · split at run
    · cases run
      exact (((runqRemove_charges ..).trans (setTdPriority_charges _ t prio)).trans
        (runqAdd_charges ..)).trans (checkPriorityPreempt_charges ..)
    · cases run
  · cases run
    exact setTdPriority_charges ..

theorem rtTick_charges {r : Prop} (s : State) (t : Tid) : Charges r s (rtTick s t) := by
  have read (n : Nat) : Charges r s { s with reads := n } :=
    .of_same (fun _ => rfl) (fun _ => rfl) rfl (fun _ _ => id) (.same rfl rfl (fun _ => rfl) rfl)
  unfold rtTick
  dsimp only
  split
  · exact .refl s
  · exact .refl s
  · split
    · exact (read _).trans (reschedThread_charges ..)
    · exact read _

/-- Each class either charges the running thread or leaves it. -/
theorem classEnqueueThread_charges (run : classEnqueueThread cls s t flags = some s') : Charges True s s' := by
  cases cls with
  | realtime => exact rtEnqueueThread_charges run
  | pss => exact pssEnqueueThread_charges run
  | idle =>
    cases run
    exact .refl _

theorem classDequeueThread_charges (run : classDequeueThread cls s t flags = some s') : Charges True s s' := by
  cases cls with
  | realtime => exact rtDequeueThread_charges run
  | pss => exact pssDequeueThread_charges run
  | idle =>
    cases run
    exact .refl _

theorem classPutPrevThread_charges (run : classPutPrevThread cls s t flags = some s') : Charges True s s' := by
  cases cls with
  | realtime => exact rtPutPrevThread_charges run
  | pss => exact pssPutPrevThread_charges run
  | idle =>
    cases run
    exact setTdState_charges _ _ _ (by simp)

/-- In each class only the chosen thread starts. -/
theorem classActivateThread_starts (groups : Groups s) (run : classActivateThread cls s t = some s') :
    Starts t s s' := by
  cases cls with
  | realtime => exact rtActivateThread_starts run
  | pss => exact pssActivateThread_starts groups run
  | idle =>
    cases run
    exact .setTdState ..

theorem enqueueThread_charges (run : enqueueThread s t flags = some s') : Charges True s s' :=
  (updateRqClock_charges s).trans (classEnqueueThread_charges run)

theorem dequeueThread_charges (run : dequeueThread s t flags = some s') : Charges True s s' :=
  (updateRqClock_charges s).trans (classDequeueThread_charges run)

theorem putPrevThread_charges (run : putPrevThread s t flags = some s') : Charges True s s' := by
  unfold putPrevThread at run
  refine Charges.trans ?_ (classPutPrevThread_charges run)
  split
  · exact updateRqClock_charges s
  · exact .refl s

/-- A running thread that is taken off its queue, changed and put back runs on. -/
theorem activateRunning_moves {r : Prop} {a : State} (groups : Groups a) (first : Moves r a s)
    (running : a.charged t) (run : (classActivateThread cls s t).map (fun s => setTdState s t .running) = some s') :
    Moves r a s' ∧ Keeps s s' := by
  obtain ⟨b, start, rfl⟩ := Option.map_eq_some_iff.mp run
  have starts : Starts t s (setTdState b t .running) :=
    (classActivateThread_starts (first.toWrites.groups groups) start).trans (.setTdState ..)
  exact ⟨starts.after first running, starts.toKeeps⟩

end classes

section sched
variable {s s' : State} {t : Tid} {flags : Nat}

/-- The chosen thread starts to run; nobody else does, and nobody is charged. -/
theorem chooseThread_writes {r : Prop} (groups : Groups s) (run : chooseThread s = some s') :
    Writes r s s' ∧ Keeps s s' := by
  have switch (a : State) (t : Tid) : Starts t a { setTdState a t .running with curthread := t } :=
    (Starts.setTdState a t .running).trans
      (.of_charges (.of_same (fun _ => rfl) (fun _ => rfl) rfl (fun _ _ => id) (.same rfl rfl (fun _ => rfl) rfl)))
  obtain ⟨⟨t, a⟩, chosen, rfl⟩ := Option.map_eq_some_iff.mp run
  have first : Charges r s (s.emit .choose) := .emit ..
  unfold schedChoose at chosen
  dsimp only at chosen
  split at chosen
  · obtain ⟨b, start, same⟩ := Option.map_eq_some_iff.mp chosen
    cases same
    have starts := (classActivateThread_starts (first.toWrites.groups groups) start).trans (switch ..)
    exact ⟨first.toMoves.then_writes starts.writes, first.toKeeps.trans starts.toKeeps⟩
  · obtain ⟨⟨picked, b⟩, walk, chosen⟩ := Option.bind_eq_some_iff.mp chosen
    obtain ⟨c, start, same⟩ := Option.map_eq_some_iff.mp chosen
    cases same
    have second := first.trans (pssPickNextThread_charges walk)
    have starts := (classActivateThread_starts (second.toWrites.groups groups) start).trans (switch ..)
    exact ⟨second.toMoves.then_writes starts.writes, second.toKeeps.trans starts.toKeeps⟩

/-- What comes before `choosethread`. -/
theorem Charges.choose {a : State} (first : Charges True s a) (groups : Groups s) (run : chooseThread a = some s') :
    Writes True s s' ∧ Keeps s s' := by
  obtain ⟨writes, keeps⟩ := chooseThread_writes (first.toWrites.groups groups) run
  exact ⟨first.toMoves.then_writes writes, first.toKeeps.trans keeps⟩

/-- A switch charges the thread that leaves before the next one is chosen. -/
theorem schedSwitch_writes (groups : Groups s) (run : schedSwitch s t flags = some s') : Writes True s s' ∧ Keeps s s' := by
  have first : Charges True s (s.modTd t fun td => { td with needResched := false, owePreempt := false }) :=
    .modTd _ _ _ ⟨rfl, rfl, rfl, rfl⟩ id
  unfold schedSwitch at run
  dsimp only at run
  split at run
  · obtain ⟨a, put, run⟩ := Option.bind_eq_some_iff.mp run
    exact (first.trans (putPrevThread_charges put)).choose groups run
  · obtain ⟨a, left, run⟩ := Option.bind_eq_some_iff.mp run
    obtain ⟨b, put, run⟩ := Option.bind_eq_some_iff.mp run
    exact ((first.trans (dequeueThread_charges left)).trans (putPrevThread_charges put)).choose groups run

/-- A thread that ends is charged a last time. -/
theorem schedThrow_writes (groups : Groups s) (run : schedThrow s t = some s') : Writes True s s' ∧ Keeps s s' := by
  obtain ⟨a, left, run⟩ := Option.bind_eq_some_iff.mp run
  obtain ⟨b, put, run⟩ := Option.bind_eq_some_iff.mp run
  have gone : Charges True b (b.modTd t fun td => { td with tdState := .inactive, exited := true }) :=
    .modTd _ _ _ ⟨rfl, rfl, rfl, rfl⟩ (by simp)
  have drop (a : State) (p : Pid) : Charges True a (a.modProc p fun p =>
      { p with threads := p.threads.filter (· ≠ t) }) := .modProc ..
  have out := (dequeueThread_charges left).trans (putPrevThread_charges put)
  exact ((out.trans gone).trans (drop _ _)).choose groups run

/-- A weight is no priority. -/
theorem setThreadWeight_charges {r : Prop} (s : State) (t : Tid) : Charges r s (setThreadWeight s t) :=
  .modEnt _ _ _ ⟨rfl, rfl, rfl⟩

/-- Off the queue, reweighed, on the queue: charged at most. -/
theorem schedNiceThread_charges {delta : Int} (groups : Groups s) (run : schedNiceThread delta s t = some s') :
    Charges True s s' := by
  have resched (a : State) (wanted : Prop) [Decidable wanted] :
      Charges True a (if wanted then reschedThread a a.curthread else a) := by
    split
    · exact reschedThread_charges ..
    · exact .refl a
  unfold schedNiceThread at run
  split at run
  · cases run
    exact setThreadWeight_charges ..
  · by_cases running : (s.td t).tdState = .running
    · simp only [running, reduceCtorEq, or_true, if_true] at run
      obtain ⟨a, left, run⟩ := Option.bind_eq_some_iff.mp run
      obtain ⟨b, put, run⟩ := Option.bind_eq_some_iff.mp run
      obtain ⟨c, back, run⟩ := Option.bind_eq_some_iff.mp run
      obtain ⟨d, start, run⟩ := Option.bind_eq_some_iff.mp run
      cases run
      have queued := (((dequeueThread_charges left).trans (putPrevThread_charges put)).trans
        (setThreadWeight_charges b t)).trans (enqueueThread_charges back)
      obtain ⟨moves, keeps⟩ := activateRunning_moves groups queued.toMoves (.inl running) start
      exact Charges.trans ⟨moves, queued.toKeeps.trans keeps⟩ (resched ..)
    · by_cases queued : (s.td t).tdState = .runq
      · simp only [queued, reduceCtorEq, or_false, if_true, if_false] at run
        obtain ⟨a, left, run⟩ := Option.bind_eq_some_iff.mp run
        obtain ⟨_, ⟨⟩, run⟩ := Option.bind_eq_some_iff.mp run
        obtain ⟨c, back, run⟩ := Option.bind_eq_some_iff.mp run
        cases run
        exact (((dequeueThread_charges left).trans (setThreadWeight_charges a t)).trans
          (enqueueThread_charges back)).trans (resched ..)
      · simp only [running, queued, or_self, if_false] at run
        cases run
        exact (setThreadWeight_charges s t).trans (resched ..)

/-- A nice value reaches user priorities only by the charges on its way. -/
theorem schedNice_charges {p : Pid} {nice : Int} (groups : Groups s) (run : schedNice s p nice = some s') :
    Charges True s s' := by
  have loop (delta : Int) (l : List Tid) (s s' : State) (groups : Groups s)
      (run : l.foldlM (schedNiceThread delta) s = some s') : Charges True s s' := by
    induction l generalizing s with
    | nil =>
      cases run
      exact .refl _
    | cons t rest ih =>
      rw [List.foldlM_cons] at run
      obtain ⟨a, step, run⟩ := Option.bind_eq_some_iff.mp run
      have first := schedNiceThread_charges groups step
      exact first.trans (ih a (first.toWrites.groups groups) run)
  have first : Charges True s (s.modProc p fun proc => { proc with nice := nice }) := .modProc ..
  exact first.trans (loop _ _ _ _ (first.toWrites.groups groups) run)

theorem checkPreemptCurr_charges (run : checkPreemptCurr s t = some s') : Charges True s s' := by
  unfold checkPreemptCurr at run
  dsimp only at run
  split at run
  · exact (checkPriorityPreempt_charges ..).trans (pssCheckPreemptCurr_charges run)
  · cases run
    exact checkPriorityPreempt_charges ..

/-- The hooks of both classes charge at most. -/
theorem checkClassChanged_charges {prev : SchedClass} (run : checkClassChanged s t prev = some s') :
    Charges True s s' := by
  have switchedTo (s s' : State) (run : pssSwitchedTo s t = some s') : Charges True s s' := by
    unfold pssSwitchedTo at run
    split at run
    · cases run
      exact addVtime_charges ..
    · split at run
      · cases run
        exact reschedThread_charges ..
      · exact checkPreemptCurr_charges run
  have from_ : Charges True s (if prev = .pss then pssSwitchedFrom s t else s) := by
    split
    · exact pssSwitchedFrom_charges ..
    · exact .refl s
  unfold checkClassChanged at run
  split at run
  · cases run
    exact .refl s
  · dsimp only at run
    generalize (if prev = .pss then pssSwitchedFrom s t else s) = a at run from_
    split at run
    · exact from_.trans (switchedTo _ _ run)
    · cases run
      exact from_

/-- A thread that wakes up has the running one charged. -/
theorem schedAdd_charges (run : schedAdd s t = some s') : Charges True s s' := by
  obtain ⟨a, first, run⟩ := Option.bind_eq_some_iff.mp run
  exact (Charges.trans (.modEnt _ _ _ ⟨rfl, rfl, rfl⟩) (enqueueThread_charges first)).trans (checkPreemptCurr_charges run)

/-- A thread that is moved ends up in another queue, the one thing a charge may not do. -/
theorem schedGroupMove_moves {g : Gid} (groups : Groups s) (run : schedGroupMove s t g = some s') :
    Moves True s s' := by
  have move (a : State) : Moves True a (if ((a.modTd t fun td => { td with group := g }).td t).cls = .pss then
      pssSchedGroupMove (a.modTd t fun td => { td with group := g }) t (decide ((s.td t).tdState = .runq ∨ (s.td t).tdState = .running))
      else setThreadRq (a.modTd t fun td => { td with group := g }) t) := by
    have store : Charges True a (a.modTd t fun td => { td with group := g }) := .modTd _ _ _ ⟨rfl, rfl, rfl, rfl⟩ id
    split
    · exact store.toMoves.trans (pssSchedGroupMove_moves ..)
    · exact store.toMoves.trans (setThreadRq_moves ..)
  unfold schedGroupMove at run
  by_cases running : (s.td t).tdState = .running
  · simp only [running, reduceCtorEq, or_true, if_true] at run move
    obtain ⟨a, left, run⟩ := Option.bind_eq_some_iff.mp run
    obtain ⟨b, put, run⟩ := Option.bind_eq_some_iff.mp run
    obtain ⟨c, back, run⟩ := Option.bind_eq_some_iff.mp run
    have off := (dequeueThread_charges left).trans (putPrevThread_charges put)
    have queued := (off.toMoves.trans (move b)).trans (enqueueThread_charges back).toMoves
    exact (activateRunning_moves groups queued (.inl running) run).1
  · by_cases queued : (s.td t).tdState = .runq
    · simp only [queued, reduceCtorEq, or_false, if_true, if_false] at run move
      obtain ⟨a, left, run⟩ := Option.bind_eq_some_iff.mp run
      obtain ⟨_, ⟨⟩, run⟩ := Option.bind_eq_some_iff.mp run
      obtain ⟨c, back, run⟩ := Option.bind_eq_some_iff.mp run
      cases run
      exact ((dequeueThread_charges left).toMoves.trans (move a)).trans (enqueueThread_charges back).toMoves
    · simp only [running, queued, or_self, if_false] at run move
      cases run
      exact move s

/-- The priority in the kernel is not the one of user mode. -/
theorem schedThreadPriority_charges {r : Prop} {prio : Nat} (run : schedThreadPriority s t prio = some s') :
    Charges r s s' := by
  unfold schedThreadPriority at run
  split at run
  · cases run
    exact .refl s
  · split at run
    · exact rtChangePriority_charges run
    · exact pssChangePriority_charges run
    · cases run
      exact .refl s

theorem schedLendPrio_charges {r : Prop} {prio : Nat} (run : schedLendPrio s t prio = some s') :
    Charges r s s' :=
  Charges.trans (.modTd _ _ _ ⟨rfl, rfl, rfl, rfl⟩ id) (schedThreadPriority_charges run)

theorem schedUnlendPrio_charges {r : Prop} {prio : Nat} (run : schedUnlendPrio s t prio = some s') :
    Charges r s s' := by
  unfold schedUnlendPrio at run
  dsimp only at run
  generalize (if puser ≤ (s.td t).tdBasePri ∧ (s.td t).tdBasePri ≤ 223 then (s.td t).tdUserPri
    else (s.td t).tdBasePri) = basePri at run
  split at run
  · exact Charges.trans (.modTd _ _ _ ⟨rfl, rfl, rfl, rfl⟩ id) (schedThreadPriority_charges run)
  · exact schedLendPrio_charges run

theorem schedPrio_charges {r : Prop} {prio : Nat} (run : schedPrio s t prio = some s') : Charges r s s' := by
  have first : Charges r s (s.modTd t fun td => { td with tdBasePri := prio }) :=
    .modTd _ _ _ ⟨rfl, rfl, rfl, rfl⟩ id
  unfold schedPrio at run
  dsimp only at run
  split at run
  · cases run
    exact first
  · exact first.trans (schedThreadPriority_charges run)

/-- `sched_userret` goes by the user priority and does not change it. -/
theorem schedUserret_charges {r : Prop} {s s' : State} {t : Tid} (run : schedUserret s t = some s') : Charges r s s' := by
  obtain ⟨_, same⟩ := Option.ite_none_left_eq_some.mp run
  obtain rfl := Option.some.inj same
  refine .modTd _ _ _ ?_ ?_
  · split <;> exact ⟨rfl, rfl, rfl, rfl⟩
  · split <;> exact id

/-- A tick charges the running thread. -/
theorem schedTick_charges (s : State) : Charges True s (schedTick s) := by
  unfold schedTick
  dsimp only
  split
  · exact (updateRqClock_charges s).trans (rtTick_charges ..)
  · exact (updateRqClock_charges s).trans (pssTickThread_charges ..)
  · exact updateRqClock_charges s

end sched
end SfqSched
