import SfqSched.Unstarted

namespace SfqSched
open State Function

section sched
variable {s s' : State} {t u : Tid} {flags : Nat}

/-- A pick leaves all entities where they are. -/
theorem pickNextEntity_spares {q : Gid} {e : EntId} (run : pickNextEntity s q = some (e, s')) : Spares True t s s' := by
  obtain ⟨_, _, a, _, view, books, _, rfl, _⟩ := pickNextEntity_spec run
  have noted (ev : Event) : Spares True t a (a.emit ev) := .spot rfl rfl
  exact (Spares.same view books).trans ((noted _).trans clearCandidates_spares)

theorem pssPickFrom_spares {fuel : Nat} {q : Gid} {e : EntId} (run : pssPickFrom s fuel q = some (e, s')) :
    Spares True t s s' := by
  induction fuel generalizing s q with
  | zero => cases run
  | succ fuel ih =>
    unfold pssPickFrom at run
    split at run
    · cases run
    · rename_i first
      split at run
      · cases run
        exact pickNextEntity_spares first
      · exact (pickNextEntity_spares first).trans (ih run)

theorem pssPickNextThread_spares {picked : Option Tid} (run : pssPickNextThread s = some (picked, s')) :
    Spares True t s s' := by
  unfold pssPickNextThread at run
  split at run
  · cases run
    exact .refl s
  · obtain ⟨⟨se, a⟩, first, run⟩ := Option.bind_eq_some_iff.mp run
    dsimp only at run
    split at run
    · split at run
      · cases run
      · cases run
        exact pssPickFrom_spares first
    · cases run

/-- A thread that has not started is on no queue, so it is not chosen. -/
theorem schedChoose_spares (h : s.view.Unstarted t) (run : schedChoose s = some (u, s')) : Spares True t s s' ∧ u ≠ t := by
  have starts : Spares True t s (s.emit .choose) := .spot rfl rfl
  unfold schedChoose at run
  dsimp only at run
  split at run
  · obtain ⟨a, act, done⟩ := Option.map_eq_some_iff.mp run
    cases done
    have other := (starts.unstarted h).1.not_activated act
    exact ⟨starts.trans (classActivateThread_spares other act), other⟩
  · obtain ⟨⟨picked, a⟩, pick, run⟩ := Option.bind_eq_some_iff.mp run
    obtain ⟨b, act, done⟩ := Option.map_eq_some_iff.mp run
    cases done
    have picks : Spares True t s a := starts.trans (pssPickNextThread_spares pick)
    have other := (picks.unstarted h).1.not_activated act
    exact ⟨picks.trans (classActivateThread_spares other act), other⟩

/-- The chosen thread is another one. -/
theorem chooseThread_spares (run : chooseThread s = some s') : Spares True t s s' := by
  obtain ⟨⟨u, a⟩, chosen, rfl⟩ := Option.map_eq_some_iff.mp run
  refine .given fun h => ?_
  obtain ⟨spares, other⟩ := schedChoose_spares h chosen
  refine spares.trans ((Spares.setTdState other .running).trans ?_)
  exact .spot rfl rfl

/-- A store to a thread that leaves its state, its class and whether it is the idle thread. -/
theorem modTd_spares (f : Thread → Thread)
    (keeps : (f (s.td u)).tdState = (s.td u).tdState ∧ (f (s.td u)).cls = (s.td u).cls ∧
      (f (s.td u)).idleTd = (s.td u).idleTd) : Spares True t s (s.modTd u f) := by
  obtain ⟨tdState, cls, idleTd⟩ := keeps
  refine .spot ?_ rfl
  simp [view_modTd, View.spot, tdState, cls, idleTd]

/-- A switch from another thread. -/
theorem schedSwitch_spares (other : u ≠ t) (run : schedSwitch s u flags = some s') : Spares True t s s' := by
  unfold schedSwitch at run
  dsimp only at run
  have cleared : Spares True t s (s.modTd u fun td => { td with needResched := false, owePreempt := false }) :=
    modTd_spares _ ⟨rfl, rfl, rfl⟩
  refine cleared.trans ?_
  split at run
  · obtain ⟨a, put, choose⟩ := Option.bind_eq_some_iff.mp run
    exact (putPrevThread_spares other put).trans (chooseThread_spares choose)
  · obtain ⟨a, deq, run⟩ := Option.bind_eq_some_iff.mp run
    obtain ⟨b, put, choose⟩ := Option.bind_eq_some_iff.mp run
    exact (dequeueThread_spares other deq).trans ((putPrevThread_spares other put).trans (chooseThread_spares choose))

/-- The end of another thread. -/
theorem schedThrow_spares (other : u ≠ t) (run : schedThrow s u = some s') : Spares True t s s' := by
  unfold schedThrow at run
  obtain ⟨a, deq, run⟩ := Option.bind_eq_some_iff.mp run
  obtain ⟨b, put, choose⟩ := Option.bind_eq_some_iff.mp run
  dsimp only at choose
  have dies : Spares True t b (b.modTd u fun td => { td with tdState := .inactive, exited := true }) := by
    refine .spot ?_ rfl
    simp [view_modTd, View.spot, other.symm]
  have leaves (s : State) (p : Pid) : Spares True t s (s.modProc p fun p => { p with threads := p.threads.filter (· ≠ u) }) :=
    .spot rfl rfl
  exact (dequeueThread_spares other deq).trans ((putPrevThread_spares other put).trans
    (dies.trans ((leaves _ _).trans (chooseThread_spares choose))))

/-- A round of `sched_nice` for a thread that has not started only stores its weight. -/
theorem schedNiceThread_spares {delta : Int} (run : schedNiceThread delta s u = some s') : Spares True t s s' := by
  have weighed (s : State) : Spares True t s (setThreadWeight s u) := .modEnt _ _ ⟨rfl, rfl, rfl, rfl⟩
  have resched (s : State) (wanted : Prop) [Decidable wanted] :
      Spares True t s (if wanted then reschedThread s s.curthread else s) := by
    split
    · exact .unseen (reschedThread_unseen ..)
    · exact .refl s
  by_cases pss : (s.td u).cls = .pss
  · obtain ⟨a, b, c, d, deq, put, enq, act, rfl⟩ := schedNiceThread_parts pss run
    refine .given fun h => ?_
    by_cases same : u = t
    · subst same
      have queued : ¬((s.td u).tdState = .runq ∨ (s.td u).tdState = .running) := fun both =>
        both.elim h.rests.1 h.rests.2
      have running : ¬(s.td u).tdState = .running := h.rests.2
      rw [if_neg queued] at deq enq
      rw [if_neg running] at put act
      cases deq
      cases put
      cases enq
      cases act
      exact (weighed s).trans (resched ..)
    · have off : Spares True t s a := by
        split at deq
        · exact dequeueThread_spares same deq
        · cases deq
          exact .refl s
      have back : Spares True t a b := by
        split at put
        · exact putPrevThread_spares same put
        · cases put
          exact .refl a
      have joins : Spares True t b c := by
        refine (weighed b).trans ?_
        split at enq
        · exact enqueueThread_spares same enq
        · cases enq
          exact .refl _
      have runs : Spares True t c d := by
        split at act
        · obtain ⟨x, runs, rfl⟩ := Option.map_eq_some_iff.mp act
          exact (classActivateThread_spares same runs).trans (.setTdState same _)
        · cases act
          exact .refl c
      exact ((off.trans back).trans (joins.trans runs)).trans (resched ..)
  · unfold schedNiceThread at run
    rw [if_pos pss] at run
    cases run
    exact weighed s

/-- A nice value reaches threads that have not started too; it takes none of them to a queue. -/
theorem schedNice_spares {p : Pid} {nice : Int} (run : schedNice s p nice = some s') : Spares True t s s' := by
  have rounds {threads : List Tid} {delta : Int} {a : State} (run : threads.foldlM (schedNiceThread delta) a = some s') :
      Spares True t a s' := by
    induction threads generalizing a with
    | nil =>
      cases run
      exact .refl _
    | cons u rest ih =>
      rw [List.foldlM_cons] at run
      obtain ⟨b, first, run⟩ := Option.bind_eq_some_iff.mp run
      exact (schedNiceThread_spares first).trans (ih run)
  have stored : Spares True t s (s.modProc p fun proc => { proc with nice := nice }) := .spot rfl rfl
  exact stored.trans (rounds run)

end sched

section change
variable {s s' : State} {t u : Tid} {g : Gid} {cls : SchedClass} {priClass : PriClass}

/-- The thread may change its class as long as it does not become idle. -/
theorem storeClass_spares (kept : u = t → cls ≠ .idle) : Spares True t s (storeClass s u priClass cls) := by
  refine .of_unstarted fun h => ⟨?_, rfl⟩
  rw [storeClass_view]
  refine { h with busy := ?_ }
  by_cases same : u = t
  · subst same
    simpa [View.setClass] using kept rfl
  · have other : t ≠ u := fun eq => same eq.symm
    simpa [View.setClass, other] using h.busy

/-- To the hooks of a class change a new thread does not sleep. -/
theorem View.Unstarted.awake (h : s.view.Unstarted t) : sleeping s t = false := by
  have initial : (s.ent (.thread t)).initial = true := h.initial
  unfold sleeping
  rw [initial]
  rfl

/-- So its vruntime is not moved when it leaves the class. -/
theorem pssSwitchedFrom_spares : Spares True t s (pssSwitchedFrom s u) := by
  refine .given fun h => ?_
  unfold pssSwitchedFrom
  dsimp only
  split
  · rename_i asleep
    have other : u ≠ t := by
      rintro rfl
      rw [h.awake] at asleep
      cases asleep
    exact (placeEntity_spares (EntId.thread_apart other)).trans (subVtime_spares (EntId.thread_apart other))
  · exact .refl s

/-- Nor when it comes into the class. -/
theorem pssSwitchedTo_spares (run : pssSwitchedTo s u = some s') : Spares True t s s' := by
  refine .given fun h => ?_
  unfold pssSwitchedTo at run
  split at run
  · rename_i asleep
    have other : u ≠ t := by
      rintro rfl
      rw [h.awake] at asleep
      cases asleep
    cases run
    exact addVtime_spares (EntId.thread_apart other)
  · split at run
    · cases run
      exact .unseen (reschedThread_unseen ..)
    · exact checkPreemptCurr_spares run

theorem checkClassChanged_spares {prev : SchedClass} (run : checkClassChanged s u prev = some s') : Spares True t s s' := by
  unfold checkClassChanged at run
  split at run
  · cases run
    exact .refl s
  · have left : Spares True t s (if prev = .pss then pssSwitchedFrom s u else s) := by
      split
      · exact pssSwitchedFrom_spares
      · exact .refl s
    dsimp only at run
    generalize (if prev = .pss then pssSwitchedFrom s u else s) = a at left run
    split at run
    · exact left.trans (pssSwitchedTo_spares run)
    · cases run
      exact left

/-- Only a thread made for it gets the idle class. -/
theorem getSchedClass_busy (priClass : PriClass) (idleTd : (s.td u).idleTd = false) :
    getSchedClass s u priClass ≠ .idle := by
  unfold getSchedClass
  rw [idleTd]
  split <;> simp

/-- A class change of any thread, this one included, spares it. -/
theorem schedClass_spares (run : schedClass s u priClass = some s') : Spares True t s s' := by
  refine .given fun h => ?_
  have stored (a : State) : Spares True t a (storeClass a u priClass (getSchedClass s u priClass)) := by
    refine storeClass_spares ?_
    rintro rfl
    exact getSchedClass_busy priClass h.idleTd
  unfold SfqSched.schedClass at run
  split at run
  · cases run
    exact .refl s
  · by_cases running : (s.td u).tdState = .running
    · have other : u ≠ t := by
        rintro rfl
        exact h.rests.2 running
      simp only [running, reduceCtorEq, or_true, if_true] at run
      obtain ⟨a, deq, run⟩ := Option.bind_eq_some_iff.mp run
      obtain ⟨b, put, run⟩ := Option.bind_eq_some_iff.mp run
      obtain ⟨c, enq, run⟩ := Option.bind_eq_some_iff.mp run
      obtain ⟨d, act, check⟩ := Option.bind_eq_some_iff.mp run
      obtain ⟨x, runs, rfl⟩ := Option.map_eq_some_iff.mp act
      have off := (classDequeueThread_spares other deq).trans (classPutPrevThread_spares other put)
      have back := (classEnqueueThread_spares other enq).trans (classActivateThread_spares other runs)
      exact (off.trans (stored b)).trans (back.trans ((Spares.setTdState other _).trans (checkClassChanged_spares check)))
    · by_cases queued : (s.td u).tdState = .runq
      · have other : u ≠ t := by
          rintro rfl
          exact h.rests.1 queued
        simp only [queued, reduceCtorEq, or_false, if_true, if_false] at run
        obtain ⟨a, deq, run⟩ := Option.bind_eq_some_iff.mp run
        obtain ⟨_, ⟨⟩, run⟩ := Option.bind_eq_some_iff.mp run
        obtain ⟨c, enq, run⟩ := Option.bind_eq_some_iff.mp run
        obtain ⟨_, ⟨⟩, check⟩ := Option.bind_eq_some_iff.mp run
        exact ((classDequeueThread_spares other deq).trans (stored a)).trans
          ((classEnqueueThread_spares other enq).trans (checkClassChanged_spares check))
      · simp only [running, queued, or_self, if_false] at run
        exact (stored s).trans (checkClassChanged_spares run)

/-- The queue a thread is to go to is not in its spot. -/
theorem setThreadRq_spares (s : State) (u : Tid) : Spares True t s (setThreadRq s u) := by
  refine .of_unstarted fun h => ⟨?_, by simp [setThreadRq, books_modEnt]⟩
  rw [setThreadRq_view]
  refine { h with parent := fun e => ?_ }
  by_cases here : e = .thread u
  · subst here
    simpa using h.groupSe _
  · simpa [here] using h.parent e

/-- The vruntime of a thread that has not started moves with it. -/
theorem moveThread_spares (onRq : Bool) : Spares True t s (moveThread s u g onRq) := by
  have stored : Spares True t s (storeGroup s u g) := modTd_spares _ ⟨rfl, rfl, rfl⟩
  refine stored.trans (.given fun h => ?_)
  unfold moveThread
  split
  · unfold pssSchedGroupMove
    dsimp only
    split
    · rename_i adjust
      have other : u ≠ t := by
        rintro rfl
        have initial := h.initial
        simp [initial] at adjust
      exact (subVtime_spares (EntId.thread_apart other)).trans
        ((setThreadRq_spares ..).trans (addVtime_spares (EntId.thread_apart other)))
    · exact setThreadRq_spares ..
  · exact setThreadRq_spares ..

/-- A move of any thread, this one included, spares it. -/
theorem schedGroupMove_spares (run : schedGroupMove s u g = some s') : Spares True t s s' := by
  refine .given fun h => ?_
  unfold schedGroupMove at run
  dsimp only at run
  by_cases running : (s.td u).tdState = .running
  · have other : u ≠ t := by
      rintro rfl
      exact h.rests.2 running
    simp only [running, reduceCtorEq, or_true, if_true] at run
    obtain ⟨a, deq, run⟩ := Option.bind_eq_some_iff.mp run
    obtain ⟨b, put, run⟩ := Option.bind_eq_some_iff.mp run
    obtain ⟨c, enq, run⟩ := Option.bind_eq_some_iff.mp run
    obtain ⟨d, act, rfl⟩ := Option.map_eq_some_iff.mp run
    have off := (dequeueThread_spares other deq).trans (putPrevThread_spares other put)
    exact (off.trans (moveThread_spares true)).trans
      ((enqueueThread_spares other enq).trans ((classActivateThread_spares other act).trans (.setTdState other _)))
  · by_cases queued : (s.td u).tdState = .runq
    · have other : u ≠ t := by
        rintro rfl
        exact h.rests.1 queued
      simp only [queued, reduceCtorEq, or_false, if_true, if_false] at run
      obtain ⟨a, deq, run⟩ := Option.bind_eq_some_iff.mp run
      obtain ⟨_, ⟨⟩, run⟩ := Option.bind_eq_some_iff.mp run
      obtain ⟨c, enq, run⟩ := Option.bind_eq_some_iff.mp run
      cases run
      exact ((dequeueThread_spares other deq).trans (moveThread_spares true)).trans (enqueueThread_spares other enq)
    · simp only [running, queued, or_self, if_false] at run
      obtain ⟨_, ⟨⟩, run⟩ := Option.bind_eq_some_iff.mp run
      obtain ⟨_, ⟨⟩, run⟩ := Option.bind_eq_some_iff.mp run
      obtain ⟨_, ⟨⟩, run⟩ := Option.bind_eq_some_iff.mp run
      cases run
      exact moveThread_spares false

theorem sysctlMoveThread_spares (run : sysctlMoveThread s u g = some s') : Spares True t s s' := by
  have lists (a : State) (h : Gid) (f : List Tid → List Tid) :
      Spares True t a (a.modGrp h fun sg => { sg with threads := f sg.threads }) := by
    refine .spot ?_ rfl
    simp [view_modGrp, View.spot]
  unfold sysctlMoveThread at run
  dsimp only at run
  split at run
  · cases run
    exact .refl s
  · have leaves := lists s (s.td u).group fun threads => threads.filter (· ≠ u)
    have enters := lists (s.modGrp (s.td u).group fun sg => { sg with threads := sg.threads.filter (· ≠ u) }) g
      fun threads => threads ++ [u]
    exact leaves.trans (enters.trans (schedGroupMove_spares run))

end change

section rest
variable {s s' : State} {t u : Tid} {prio : Nat}

theorem runqAdd_spares (s : State) (u : Tid) (head : Bool) : Spares True t s (runqAdd s u head) :=
  .spot (by rw [runqAdd_view]; rfl) (by rw [runqAdd_books])

theorem runqRemove_spares (s : State) (u : Tid) : Spares True t s (runqRemove s u) :=
  .spot (by rw [runqRemove_view]; rfl) (by rw [runqRemove_books])

/-- A priority is not in a spot. -/
theorem setPriority_spares (s : State) (u : Tid) (prio : Nat) :
    Spares True t s (s.modTd u fun td => { td with tdPriority := prio }) := modTd_spares _ ⟨rfl, rfl, rfl⟩

theorem rtChangePriority_spares (run : rtChangePriority s u prio = some s') : Spares True t s s' := by
  unfold rtChangePriority at run
  split at run
  · split at run
    · cases run
      exact ((runqRemove_spares s u).trans (setPriority_spares _ u prio)).trans
        ((runqAdd_spares _ u false).trans (.unseen (checkPriorityPreempt_unseen ..)))
    · cases run
  · cases run
    exact setPriority_spares s u prio

theorem pssChangePriority_spares (run : pssChangePriority s u prio = some s') : Spares True t s s' := by
  unfold pssChangePriority at run
  split at run
  · have first : Spares True t s ((rawRunqDequeue s u).modTd u fun td => { td with tdPriority := prio }) :=
      rawRunqDequeue_spares.trans (setPriority_spares _ u prio)
    dsimp only at run
    split at run
    · obtain ⟨a, boost, done⟩ := Option.bind_eq_some_iff.mp run
      cases done
      exact first.trans ((rawRunqEnqueue_spares boost).trans (.unseen (checkPriorityPreempt_unseen ..)))
    · cases run
      exact first.trans (.unseen (checkPriorityPreempt_unseen ..))
  · cases run
    exact setPriority_spares s u prio

/-- A priority is stored for a thread that waits or does not. -/
theorem schedThreadPriority_spares (run : schedThreadPriority s u prio = some s') : Spares True t s s' := by
  unfold schedThreadPriority at run
  split at run
  · cases run
    exact .refl s
  · split at run
    · exact rtChangePriority_spares run
    · exact pssChangePriority_spares run
    · cases run
      exact .refl s

theorem schedLendPrio_spares (run : schedLendPrio s u prio = some s') : Spares True t s s' := by
  have stored : Spares True t s (s.modTd u fun td => { td with borrowing := true }) := modTd_spares _ ⟨rfl, rfl, rfl⟩
  exact stored.trans (schedThreadPriority_spares run)

theorem schedUnlendPrio_spares (run : schedUnlendPrio s u prio = some s') : Spares True t s s' := by
  have stored : Spares True t s (s.modTd u fun td => { td with borrowing := false }) := modTd_spares _ ⟨rfl, rfl, rfl⟩
  unfold schedUnlendPrio at run
  dsimp only at run
  generalize (if puser ≤ (s.td u).tdBasePri ∧ (s.td u).tdBasePri ≤ 223 then (s.td u).tdUserPri
    else (s.td u).tdBasePri) = base at run
  split at run
  · exact stored.trans (schedThreadPriority_spares run)
  · exact schedLendPrio_spares run

theorem schedPrio_spares (run : schedPrio s u prio = some s') : Spares True t s s' := by
  have stored : Spares True t s (s.modTd u fun td => { td with tdBasePri := prio }) := modTd_spares _ ⟨rfl, rfl, rfl⟩
  unfold schedPrio at run
  dsimp only at run
  split at run
  · cases run
    exact stored
  · exact stored.trans (schedThreadPriority_spares run)

theorem schedUserPrio_spares : Spares True t s (schedUserPrio s u prio) := by
  have stored : Spares True t s (s.modTd u fun td => { td with tdBaseUserPri := prio }) := modTd_spares _ ⟨rfl, rfl, rfl⟩
  unfold schedUserPrio
  dsimp only
  split
  · exact stored
  · exact stored.trans (modTd_spares _ ⟨rfl, rfl, rfl⟩)

theorem schedLendUserPrio_spares (run : schedLendUserPrio s u prio = some s') : Spares True t s s' := by
  have stored : Spares True t s (s.modTd u fun td =>
      { td with tdLendUserPri := prio, tdUserPri := min prio td.tdBaseUserPri }) := modTd_spares _ ⟨rfl, rfl, rfl⟩
  unfold schedLendUserPrio at run
  dsimp only at run
  split at run
  · exact stored.trans (schedPrio_spares run)
  · split at run
    · cases run
      exact stored.trans (.unseen (reschedThread_unseen ..))
    · cases run
      exact stored

/-- A tick is for the entities of the running chain. -/
theorem entityTick_spares (s : State) (e : EntId) : Spares True t s (entityTick s e) := by
  have preempts (s : State) (q : Gid) : Spares True t s (checkPreemptTick s q e) := by
    have slice : Spares True t s (schedSlice s q e).2 :=
      .same ((schedSlice_changes s q e).view caching_view) ((schedSlice_changes s q e).books caching_books)
    unfold checkPreemptTick
    dsimp only
    split
    · exact slice.trans (clearCandidates_spares.trans (.unseen (reschedThread_unseen ..)))
    · split
      · exact slice
      · split
        · exact slice
        · split
          · exact slice.trans (.unseen (reschedThread_unseen ..))
          · exact slice
  unfold entityTick
  dsimp only
  split
  · exact (updateCurr_spares ..).trans (preempts ..)
  · exact updateCurr_spares ..

theorem schedTick_spares (s : State) : Spares True t s (schedTick s) := by
  have ticks (chain : List EntId) (s : State) : Spares True t s (chain.foldl entityTick s) := by
    induction chain generalizing s with
    | nil => exact .refl s
    | cons se rest ih => exact (entityTick_spares s se).trans (ih _)
  have rt (s : State) (u : Tid) : Spares True t s (rtTick s u) := by
    have read : Spares True t s { s with reads := s.reads + 1 } := .spot rfl rfl
    unfold rtTick
    dsimp only
    split
    · exact .refl s
    · exact .refl s
    · split
      · exact read.trans (.unseen (reschedThread_unseen ..))
      · exact read
  unfold schedTick
  dsimp only
  split
  · exact (updateRqClock_spares s).trans (rt ..)
  · exact (updateRqClock_spares s).trans (ticks ..)
  · exact updateRqClock_spares s

/-- Shares are not in a spot. -/
theorem setShares_spares (s : State) (g : Gid) (shares : Nat) : Spares True t s (pssSchedGroupSetShares s g shares).2 := by
  have stored (s : State) (shares : Nat) : Spares True t s (s.modGrp g fun sg => { sg with shares := shares }) := by
    refine .spot ?_ rfl
    simp [view_modGrp, View.spot]
  unfold pssSchedGroupSetShares
  split
  · exact .refl s
  · have first : Spares True t s (if shares = 0 then s.modGrp g fun sg => { sg with shares := nice0Weight } else s) := by
      split
      · exact stored ..
      · exact .refl s
    dsimp only
    generalize (if shares = 0 then s.modGrp g fun sg => { sg with shares := nice0Weight } else s) = a at first
    generalize (if shares = 0 then shares else clampShares shares) = wanted
    split
    · exact first
    · exact first.trans ((stored ..).trans (updateSharesWalk_spares ..))

/-- A new group is above no thread yet. -/
theorem schedGroupCreate_spares {L : List EntId} {parent : Gid} {shares : Nat} (core : s.view.Core L)
    (inside : parent < s.view.ngroups) : Spares True t s (schedGroupCreate s parent shares) := by
  refine .of_unstarted fun h => ⟨?_, ?_⟩
  · rw [schedGroupCreate_view core inside]
    have upper : seOf parent ≠ some (.thread t) := by
      unfold seOf
      split <;> simp
    refine ⟨⟨h.curr, fun e => ?_, fun g => ?_⟩, h.inside, ?_, h.joined, h.rests, h.busy, h.idleTd⟩
    · by_cases new : e = .group s.view.ngroups
      · simpa [View.create, new] using upper
      · simpa [View.create, new] using h.parent e
    · by_cases new : g = s.view.ngroups
      · simp [View.create, new]
      · simpa [View.create, new] using h.groupSe g
    · simpa [View.create] using h.initial
  · simp [schedGroupCreate, pssAllocSchedGroup, books_modEnt]
    rfl

/-- A thread stays unstarted when another one is born. -/
theorem View.Unstarted.born {v : View} (h : v.Unstarted t) (p : Nat) : (v.born p).Unstarted t := by
  have older : t ≠ v.nthreads := h.inside.ne
  have upper : seOf (v.tdGroup p) ≠ some (.thread t) := by
    unfold seOf
    split <;> simp
  refine ⟨⟨h.curr, fun e => ?_, h.groupSe⟩, Nat.lt_succ_of_lt h.inside, ?_, h.joined, ?_, ?_, ?_⟩
  · by_cases new : e = .thread v.nthreads
    · simpa [View.born, new] using upper
    · simpa [View.born, new] using h.parent e
  · simpa [View.born, older] using h.initial
  · simpa [View.born, View.resting, older] using h.rests
  · simpa [View.born, older] using h.busy
  · simpa [View.born, older] using h.idleTd

theorem setVruntime_spares {e : EntId} (apart : e ≠ .thread t) (s : State) (f : SchedEntity → BitVec 64) :
    Spares True t s (s.modEnt e fun se => { se with vruntime := f se }) := by
  refine .spot ?_ ?_
  · simp [view_modEnt, View.spot]
  · simp [books_modEnt, apart.symm]

theorem placeEntityInitial_spares {q : Gid} {e : EntId} (apart : e ≠ .thread t) (s : State) :
    Spares True t s (placeEntityInitial s q e) := by
  obtain ⟨_, placed⟩ := placeEntityInitial_books s q e
  refine .spot (by simp) ?_
  rw [placed]
  exact update_of_ne apart.symm ..

/-- A fork moves the vruntimes of a parent and its child, which are others. -/
theorem pssForkThread_spares {p child : Tid} (parent : p ≠ t) (other : child ≠ t) (s : State) :
    Spares True t s (pssForkThread s p child) := by
  have apart := EntId.thread_apart other
  have place : Spares True t s (pssForkPlace s p child) := by
    unfold pssForkPlace
    dsimp only
    exact ((updateRqClock_spares s).trans (updateCurr_spares ..)).trans
      ((setVruntime_spares apart _ _).trans (placeEntityInitial_spares apart _))
  have noted (s : State) (ev : Event) : Spares True t s (s.emit ev) := .spot rfl rfl
  have swap (s : State) : Spares True t s (pssForkSwap s p child) := by
    unfold pssForkSwap
    dsimp only
    exact ((setVruntime_spares (EntId.thread_apart parent) _ _).trans (noted ..)).trans
      ((setVruntime_spares apart _ _).trans (.unseen (reschedThread_unseen ..)))
  unfold pssForkThread
  dsimp only
  have placed : Spares True t s (if forkSwaps (pssForkPlace s p child) p child then pssForkSwap (pssForkPlace s p child) p child
      else pssForkPlace s p child) := by
    split
    · exact place.trans (swap _)
    · exact place
  exact placed.trans ((setVruntime_spares apart _ _).trans (noted ..))

/-- A fork leaves alone the threads that are there, except its parent. -/
theorem fork_spares {L : List EntId} {p : Tid} {newProc : Bool} {stale : SchedEntity} (core : s.view.Core L)
    (inside : p < s.view.nthreads) (parent : p ≠ t) : Spares True t s (fork s p newProc stale) := by
  refine .given fun h => ?_
  have other : s.nthreads ≠ t := h.inside.ne'
  have init : Spares True t s (schedForkInit (forkAlloc s p newProc) p s.nthreads stale) := by
    refine .of_unstarted fun h => ⟨?_, ?_⟩
    · rw [schedForkInit_view core inside]
      exact h.born p
    · have apart : t ≠ s.view.nthreads := h.inside.ne
      cases newProc <;> simp [schedForkInit, setThreadRq, forkAlloc, books_modEnt, apart] <;> rfl
  unfold fork schedForkThread
  dsimp only
  split
  · exact init.trans (pssForkThread_spares parent other _)
  · exact init.trans (.spot rfl rfl)

end rest

/-- A thread is added or forks. -/
def Op.starts (t : Tid) : Op → Prop
  | .add u => u = t
  | .fork p _ _ => p = t
  | _ => False

section step
variable {s s' : State} {t : Tid} {op : Op}

/-- Every operation that neither adds the thread nor is a fork by it leaves it as it was. -/
theorem step_spares (settled : Settled .free s) (other : ¬op.starts t) (run : step s op = some s') : Spares True t s s' := by
  refine .given fun h => ?_
  have core := settled.stands.inv.core
  obtain ⟨inside, alive⟩ := settled.stands.roster.current s.curthread rfl
  have running : s.view.tdState s.curthread = .running := (settled.stands.roster.live _ inside alive).running.mpr rfl
  have current : s.curthread ≠ t := by
    intro same
    rw [same] at running
    exact h.rests.2 running
  unfold step at run
  split at run
  · rename_i enabled
    cases op with
    | add u =>
      have apart : u ≠ t := other
      obtain ⟨a, enq, check⟩ := Option.bind_eq_some_iff.mp run
      have woken : Spares True t s (setTdState s u .canRun) := .setTdState apart _
      have begun : Spares True t (setTdState s u .canRun)
          ((setTdState s u .canRun).modEnt (.thread u) fun se => { se with initial := false }) := by
        refine .spot ?_ (by simp [books_modEnt])
        have apart' : t ≠ u := apart.symm
        simp [view_modEnt, View.spot, apart']
      exact (woken.trans begun).trans ((enqueueThread_spares apart enq).trans (checkPreemptCurr_spares check))
    | switch flags => exact schedSwitch_spares current run
    | sleep flags => exact (Spares.setTdState current _).trans (schedSwitch_spares current run)
    | throw => exact schedThrow_spares current run
    | schedClass u priClass => exact schedClass_spares run
    | nice p n => exact schedNice_spares run
    | groupMove u g => exact sysctlMoveThread_spares run
    | fork p newProc stale =>
      simp only [Op.enabled, State.live, Bool.and_eq_true, decide_eq_true_eq] at enabled
      cases run
      exact fork_spares core enabled.1.1 other
    | exitThread u =>
      cases run
      refine .spot ?_ rfl
      simp [schedExitThread, view_modGrp, View.spot]
    | tick =>
      cases run
      exact schedTick_spares s
    | prio u p => exact schedPrio_spares run
    | lendPrio u p => exact schedLendPrio_spares run
    | unlendPrio u p => exact schedUnlendPrio_spares run
    | userPrio u p =>
      cases run
      exact schedUserPrio_spares
    | lendUserPrio u p => exact schedLendUserPrio_spares run
    | userret => exact .unseen (schedUserret_unseen run)
    | setShares g shares =>
      cases run
      exact setShares_spares ..
    | groupCreate g shares =>
      cases run
      exact schedGroupCreate_spares core (of_decide_eq_true enabled)
    | sysctl write =>
      obtain ⟨tun, new, rfl⟩ := Option.map_eq_some_iff.mp run
      exact .spot rfl rfl
  · cases run

/-- A run leaves a thread as it was that it does not start. -/
theorem runFrom_spares {ops : List Op} (settled : Settled .free s) (none : ∀ op ∈ ops, ¬op.starts t)
    (run : runFrom s ops = some s') : Settled .free s' ∧ Spares True t s s' := by
  unfold runFrom at run
  induction ops generalizing s with
  | nil =>
    cases run
    exact ⟨settled, .refl _⟩
  | cons op rest ih =>
    rw [List.foldlM_cons] at run
    obtain ⟨a, first, run⟩ := Option.bind_eq_some_iff.mp run
    have here := step_spares settled (none op (List.mem_cons_self ..)) first
    obtain ⟨after, spares⟩ := ih (step_settled settled (Op.meets_free ..) first)
      (fun o member => none o (List.mem_cons_of_mem _ member)) run
    exact ⟨after, here.trans spares⟩

end step

section first
variable {s s' : State} {q : Gid} {t : Tid} {flags : Nat}

/-- `enqueue_entity` of the thread itself, once the thread has its vruntime. -/
theorem enqueueEntity_own (run : enqueueEntity s q (.thread t) flags = some s') :
    Spares False t (enqueueVruntime s q (.thread t) flags) s' := by
  obtain ⟨_, a, b, first, second, rfl⟩ := enqueueEntity_parts run
  have boosted : Spares False t (enqueueVruntime s q (.thread t) flags) a := by
    unfold setRunq at first
    split at first
    · rename_i u _
      have state (s : State) : Spares False t s (setTdState s u .runq) := .started (by simp) (by simp) (by simp) rfl
      dsimp only at first
      split at first
      · exact (state _).trans (rawRunqEnqueue_spares first)
      · cases first
        exact state _
    · cases first
      exact .refl _
  have joins (s : State) : Spares False t s
      ((s.emit (.join q (.thread t))).modEnt (.thread t) fun ent => { ent with joined := true }) :=
    .started (by simp [view_modEnt]) (by simp [view_modEnt]) (by simp [view_modEnt]) (by simp [books_modEnt, books_emit])
  have listed (s : State) : Spares False t s (if (s.sfq q).nrRunning = 1 then addLeafSfq s q else s) := by
    split
    · exact .same (by simp) (by simp)
    · exact .refl s
  unfold enqueueAccount
  exact boosted.trans ((rawEnqueueEntity_spares second).trans
    (accountEntityEnqueue_spares.trans ((updateSfqShares_spares ..).trans ((listed _).trans (joins _)))))

/-- A thread that is not woken up gets its queue's vtime on top of what it had. -/
theorem enqueueEntity_added (apart : s.view.Apart t) (fresh : flags &&& enqueueWakeup = 0)
    (run : enqueueEntity s q (.thread t) flags = some s') :
    s'.view.Apart t ∧ s'.books.vruntime (.thread t) = s.books.vruntime (.thread t) + (s.sfq q).vtime := by
  have after := enqueueEntity_own run
  unfold enqueueVruntime at after
  simp only [fresh, if_true, ne_eq, not_true_eq_false, if_false] at after
  have whole := (updateCurr_spares (addVtime s q (.thread t)) q).trans after
  have apart' : (addVtime s q (.thread t)).view.Apart t := by simpa using apart
  obtain ⟨⟨kept, _⟩, vruntime⟩ := whole.kept ⟨apart', False.elim⟩
  refine ⟨kept, vruntime.trans ?_⟩
  rw [addVtime_books]
  exact update_self ..

/-- The first enqueue of a thread of `pss_class` gives it its queue's vtime and nothing else. -/
theorem enqueueThread_added (apart : s.view.Apart t) (off : s.view.joined (.thread t) = false) (pss : (s.td t).cls = .pss)
    (run : enqueueThread s t 0 = some s') :
    s'.view.Apart t ∧
      s'.books.vruntime (.thread t) = s.books.vruntime (.thread t) + (s.sfq (s.ent (.thread t)).sfq).vtime := by
  have above : .thread t ∉ climb (fun e => (s.ent e).parent) s.ngroups (s.ent (.thread t)).parent := by
    intro member
    rcases mem_climb member with up | ⟨y, up⟩
    · exact apart.parent _ up
    · exact apart.parent y up
  unfold enqueueThread at run
  dsimp only at run
  rw [show ((updateRqClock s).td t).cls = .pss from pss] at run
  obtain ⟨a, walk, rfl⟩ := Option.map_eq_some_iff.mp run
  rw [show walkup (updateRqClock s) (some (.thread t)) =
    .thread t :: climb (fun e => (s.ent e).parent) s.ngroups (s.ent (.thread t)).parent from rfl] at walk
  have apart' : (updateRqClock s).view.Apart t := apart
  have off' : ((updateRqClock s).ent (.thread t)).joined = false := off
  unfold pssEnqueueWalk at walk
  rw [off', if_neg Bool.false_ne_true] at walk
  split at walk
  · cases walk
  · rename_i b first
    obtain ⟨kept, added⟩ := enqueueEntity_added apart' (by decide) first
    have later : Spares False t b (rqRunAdd a t) := (pssEnqueueWalk_spares above walk).trans rqRunAdd_spares
    obtain ⟨⟨kept', _⟩, vruntime⟩ := later.kept ⟨kept, False.elim⟩
    exact ⟨kept', vruntime.trans added⟩

/-- The first `sched_add` of a thread. -/
theorem add_unstarted (h : s.view.Unstarted t) (pss : (s.td t).cls = .pss) (run : step s (.add t) = some s') :
    (s'.ent (.thread t)).vruntime = (s.ent (.thread t)).vruntime + (s.sfq (s.ent (.thread t)).sfq).vtime := by
  unfold step at run
  split at run
  · obtain ⟨a, enqueue, check⟩ := Option.bind_eq_some_iff.mp run
    have initial : ((setTdState s t .canRun).ent (.thread t)).initial = true := h.initial
    rw [initial, if_pos rfl] at enqueue
    have apart : ((setTdState s t .canRun).modEnt (.thread t) fun se => { se with initial := false }).view.Apart t := by
      refine h.toApart.congr ?_ ?_ ?_ <;> simp [view_modEnt]
    have mine : ((setTdState s t .canRun).modEnt (.thread t) fun se => { se with initial := false }).ent (.thread t) =
        { s.ent (.thread t) with initial := false } := by simp [setTdState, State.modTd, State.modEnt]
    have off : ((setTdState s t .canRun).modEnt (.thread t) fun se => { se with initial := false }).view.joined
        (.thread t) = false := (congrArg SchedEntity.joined mine).trans h.joined
    have cls : (((setTdState s t .canRun).modEnt (.thread t) fun se => { se with initial := false }).td t).cls = .pss := by
      simpa [setTdState, State.modTd, State.modEnt] using pss
    obtain ⟨kept, added⟩ := enqueueThread_added apart off cls enqueue
    have later : Spares False t a s' := checkPreemptCurr_spares check
    obtain ⟨_, vruntime⟩ := later.kept ⟨kept, False.elim⟩
    have old := congrArg SchedEntity.vruntime mine
    have queue := congrArg SchedEntity.sfq mine
    rw [queue] at added
    exact (vruntime.trans added).trans (congrArg (· + _) old)
  · cases run

end first

end SfqSched
