import SfqSched.ClassChange

namespace SfqSched
open State Function

/-- No thread comes, goes or changes its process, and processes stay as they are. -/
structure Staffed (s s' : State) : Prop where
  proc : s'.proc = s.proc
  nthreads : s'.nthreads = s.nthreads
  exited : ∀ t, (s'.td t).exited = (s.td t).exited
  pid : ∀ t, (s'.td t).proc = (s.td t).proc

/-- Where no process is touched, none loses or gains a thread. -/
theorem Steady.staffed {s s' : State} (h : Steady s s') : Staffed s s' := ⟨h.proc, h.nthreads, h.exited, h.pid⟩

namespace Staffed
variable {s s' s'' : State}

theorem trans (h : Staffed s s') (h' : Staffed s' s'') : Staffed s s'' where
  proc := h'.proc.trans h.proc
  nthreads := h'.nthreads.trans h.nthreads
  exited t := (h'.exited t).trans (h.exited t)
  pid t := (h'.pid t).trans (h.pid t)

theorem modEnt (s : State) (e : EntId) (f : SchedEntity → SchedEntity) : Staffed s (s.modEnt e f) :=
  ⟨rfl, rfl, fun _ => rfl, fun _ => rfl⟩

/-- A store to a thread may not touch its process or that it has ended. -/
theorem modTd (s : State) (t : Tid) (f : Thread → Thread) (exited : (f (s.td t)).exited = (s.td t).exited)
    (pid : (f (s.td t)).proc = (s.td t).proc) : Staffed s (s.modTd t f) where
  proc := rfl
  nthreads := rfl
  exited u := by
    by_cases same : u = t
    · subst same
      simpa [State.modTd] using exited
    · simp [State.modTd, same]
  pid u := by
    by_cases same : u = t
    · subst same
      simpa [State.modTd] using pid
    · simp [State.modTd, same]

end Staffed

section steady
variable {C : Conds} {s s' : State} {L : List EntId} {d : Option EntId} {t : Tid} {flags : Nat}

/-- On all levels the entity that had the CPU is put back with the weight it had. -/
theorem pssPutPrevWalk_steady (chain : List EntId) (run : pssPutPrevWalk s chain flags = some s') : Steady s s' := by
  induction chain generalizing s with
  | nil =>
    cases run
    exact .refl _
  | cons se rest ih =>
    unfold pssPutPrevWalk at run
    split at run
    · cases run
    · rename_i step
      exact (putPrevEntity_steady step).trans (ih run)

theorem pssPutPrevThread_steady (run : pssPutPrevThread s t flags = some s') : Steady s s' := by
  obtain ⟨a, walk, rfl⟩ := Option.map_eq_some_iff.mp run
  exact (pssPutPrevWalk_steady _ walk).trans (.emit ..)

/-- On all levels the entity that gets the CPU keeps its weight. -/
theorem pssActivateWalk_steady (chain : List EntId) (run : pssActivateWalk s chain = some s') : Steady s s' := by
  induction chain generalizing s with
  | nil =>
    cases run
    exact .refl _
  | cons se rest ih =>
    unfold pssActivateWalk at run
    split at run
    · cases run
    · rename_i step
      exact (activateEntity_steady step).trans (ih run)

theorem pssActivateThread_steady (run : pssActivateThread s t = some s') : Steady s s' := by
  obtain ⟨a, walk, rfl⟩ := Option.map_eq_some_iff.mp run
  exact (pssActivateWalk_steady _ walk).trans ((setTdState_steady ..).trans (.emit ..))

theorem rqRunRem_steady (run : rqRunRem s t = some s') : Steady s s' := by
  have one (s : State) (ev : Event) (f : Rq → Rq) : Steady s ((s.emit ev).modRq f) := (Steady.emit ..).trans (.modRq ..)
  unfold rqRunRem at run
  split at run
  · cases run
  · dsimp only at run
    cases run
    split
    · exact one ..
    · exact (one ..).trans (one ..)

/-- No step of a hook changes a thread's weight. -/
theorem Flow.steady (inv : Inv C s L d) (step : Flow C s s') : Steady s s' := by
  have hier := inv.core.hier
  cases step with
  | quiet same => exact same.steady
  | clock run =>
    rw [run]
    exact updateRqClock_steady s
  | charge q run =>
    rw [run]
    exact updateCurr_steady s q
  | reshare q inside run =>
    rw [run]
    exact updateSfqShares_steady s q hier inside
  | enqueue e flags run => exact enqueueEntity_steady hier (hier.inside e) run
  | start t flags initial run =>
    have store : Steady s (s.modEnt (.thread t) fun se => { se with initial := false }) :=
      .modEnt _ _ _ (fun _ _ _ => rfl) rfl
    have hier' : (updateRqClock (s.modEnt (.thread t) fun se => { se with initial := false })).view.Hier := by
      have view : (s.modEnt (.thread t) fun se => { se with initial := false }).view =
          { s.view with initial := update s.view.initial (.thread t) false } := by
        rw [view_modEnt]
        simp
      have look : (updateRqClock (s.modEnt (.thread t) fun se => { se with initial := false })).view = _ := view
      rw [look]
      exact { hier with }
    exact (store.trans (updateRqClock_steady _)).trans (enqueueEntity_steady hier' (hier.inside _) run)
  | dequeue e flags run => exact dequeueEntity_steady inv.core (hier.inside e) run
  | putPrev t flags run => exact pssPutPrevThread_steady run
  | activate t run => exact pssActivateThread_steady run
  | mark ok view marked steady => exact steady
  | uncount t run => exact rqRunRem_steady run
  | choose run =>
    rw [run]
    exact .emit ..
  | pick q e run =>
    obtain ⟨first, gran, a, _, _, _, steady, rfl, _⟩ := pickNextEntity_spec run
    exact steady.trans ((Steady.emit ..).trans (clearCandidates_steady ..))
  | rtActivate t run => exact (rtActivateThread_spec run).2.2.2

end steady

section staffed

/-- A thread that changes its class stays in its process. -/
theorem recast_staffed (s : State) (t : Tid) (priClass : PriClass) (cls : SchedClass) :
    Staffed s (storeClass s t priClass cls) := by
  refine .modTd _ _ _ ?_ ?_ <;> rfl

theorem setThreadRq_steady (s : State) (t : Tid) : Steady s (setThreadRq s t) := by
  unfold setThreadRq
  exact .modEnt _ _ _ (fun _ _ _ => rfl) rfl

theorem pssSwitchedFrom_steady (s : State) (t : Tid) : Steady s (pssSwitchedFrom s t) := by
  unfold pssSwitchedFrom
  dsimp only
  split
  · exact (placeEntity_steady ..).trans (subVtime_steady ..)
  · exact .refl s

/-- A thread that changes queues keeps its load. -/
theorem pssSchedGroupMove_steady (s : State) (t : Tid) (onRq : Bool) : Steady s (pssSchedGroupMove s t onRq) := by
  unfold pssSchedGroupMove
  dsimp only
  split
  · exact (subVtime_steady ..).trans ((setThreadRq_steady ..).trans (addVtime_steady ..))
  · exact setThreadRq_steady ..

theorem placeEntityInitial_steady (s : State) (q : Gid) (e : EntId) : Steady s (placeEntityInitial s q e) := by
  unfold placeEntityInitial
  dsimp only
  split
  · refine Steady.trans ?_ (.modEnt _ _ _ (fun _ _ _ => rfl) rfl)
    exact (schedSlice_steady s q e).trans (scaleDelta_steady ..)
  · exact .modEnt _ _ _ (fun _ _ _ => rfl) rfl

/-- The child's load is its own before it is placed. -/
theorem pssForkThread_steady (s : State) (parent child : Tid) : Steady s (pssForkThread s parent child) := by
  have place (s : State) : Steady s (pssForkPlace s parent child) := by
    unfold pssForkPlace
    refine Steady.trans (Steady.trans ?_ (.modEnt _ _ _ (fun _ _ _ => rfl) rfl)) (placeEntityInitial_steady ..)
    exact (updateRqClock_steady s).trans (updateCurr_steady ..)
  have swap (s : State) : Steady s (pssForkSwap s parent child) := by
    unfold pssForkSwap
    refine Steady.trans (Steady.trans ?_ (.modEnt _ _ _ (fun _ _ _ => rfl) rfl)) (reschedThread_steady ..)
    exact (Steady.modEnt _ _ _ (fun _ _ _ => rfl) rfl).trans (.emit ..)
  unfold pssForkThread
  refine Steady.trans (Steady.trans ?_ (.modEnt _ _ _ (fun _ _ _ => rfl) rfl)) (.emit ..)
  split
  · exact (place s).trans (swap _)
  · exact place s

/-- The child is set up in the process that it was made in. -/
theorem schedForkThread_staffed (s : State) (parent child : Tid) (stale : SchedEntity) :
    Staffed s (schedForkThread s parent child stale) := by
  have init : Staffed s (schedForkInit s parent child stale) := by
    unfold schedForkInit
    refine Staffed.trans (Staffed.trans (Staffed.trans (.modEnt ..) (.modTd _ _ _ ?_ ?_)) (Steady.modGrp ..).staffed)
      (setThreadRq_steady ..).staffed
    · rfl
    · rfl
  unfold schedForkThread
  dsimp only
  split
  · exact init.trans (pssForkThread_steady ..).staffed
  · exact init.trans (Steady.emit ..).staffed

end staffed

/-- Nice values are in range, and the threads of a process live and belong to it. -/
structure Procs (s : State) : Prop where
  nice : ∀ p, prioMin ≤ (s.proc p).nice ∧ (s.proc p).nice ≤ prioMax
  member : ∀ p t, t ∈ (s.proc p).threads → t < s.nthreads ∧ (s.td t).exited = false ∧ (s.td t).proc = p

namespace Procs
variable {C : Conds} {s s' : State} {L : List EntId} {d : Option EntId}

/-- What touches no process keeps them in order. -/
theorem staffed (procs : Procs s) (h : Staffed s s') : Procs s' where
  nice p := by
    rw [h.proc]
    exact procs.nice p
  member p t listed := by
    rw [h.proc] at listed
    rw [h.nthreads, h.exited, h.pid]
    exact procs.member p t listed

/-- A store to a process may change its nice value within bounds, and its threads to living ones. -/
theorem modProc (procs : Procs s) (p : Pid) (f : Proc → Proc)
    (nice : prioMin ≤ (f (s.proc p)).nice ∧ (f (s.proc p)).nice ≤ prioMax)
    (member : ∀ t, t ∈ (f (s.proc p)).threads → t < s.nthreads ∧ (s.td t).exited = false ∧ (s.td t).proc = p) :
    Procs (s.modProc p f) where
  nice q := by
    by_cases same : q = p
    · subst same
      simpa [State.modProc] using nice
    · simpa [State.modProc, same] using procs.nice q
  member q t listed := by
    by_cases same : q = p
    · subst same
      exact member t (by simpa [State.modProc] using listed)
    · exact procs.member q t (by simpa [State.modProc, same] using listed)

/-- A process gains a new thread. -/
theorem grown (procs : Procs s) {p : Pid} {x : Proc} {td : Thread} (nthreads : s'.nthreads = s.nthreads + 1)
    (procs' : s'.proc = update s.proc p { x with threads := x.threads ++ [s.nthreads] })
    (td' : s'.td = update s.td s.nthreads td) (fresh : td.exited = false ∧ td.proc = p)
    (nice : prioMin ≤ x.nice ∧ x.nice ≤ prioMax)
    (listed : ∀ t, t ∈ x.threads → t < s.nthreads ∧ (s.td t).exited = false ∧ (s.td t).proc = p) : Procs s' where
  nice q := by
    rw [procs']
    by_cases same : q = p
    · simpa [same] using nice
    · simpa [same] using procs.nice q
  member q t member := by
    rw [procs'] at member
    rw [nthreads, td']
    have kept (below : t < s.nthreads) : update s.td s.nthreads td t = s.td t := update_of_ne below.ne ..
    by_cases same : q = p
    · subst same
      rw [update_self] at member
      rcases List.mem_append.mp member with there | new
      · obtain ⟨below, live, belongs⟩ := listed t there
        rw [kept below]
        exact ⟨Nat.lt_succ_of_lt below, live, belongs⟩
      · cases List.mem_singleton.mp new
        rw [update_self]
        exact ⟨Nat.lt_succ_self _, fresh⟩
    · rw [update_of_ne same] at member
      obtain ⟨below, live, belongs⟩ := procs.member q t member
      rw [kept below]
      exact ⟨Nat.lt_succ_of_lt below, live, belongs⟩

/-- A new thread is in its parent's process, or alone in a new one. -/
theorem forkAlloc (procs : Procs s) (parent : Tid) (newProc : Bool) : Procs (forkAlloc s parent newProc) := by
  cases newProc with
  | true =>
    have only : (SfqSched.forkAlloc s parent true).proc = update s.proc s.nprocs
        { nice := (s.proc (s.td parent).proc).nice, threads := [] ++ [s.nthreads] } := by
      simp only [SfqSched.forkAlloc, if_true, State.modTd, State.modProc, update_self, update_idem]
    refine procs.grown (x := { nice := (s.proc (s.td parent).proc).nice }) rfl only rfl ⟨rfl, rfl⟩ (procs.nice _) ?_
    exact fun _ never => (List.not_mem_nil never).elim
  | false => exact procs.grown (p := (s.td parent).proc) rfl rfl rfl ⟨rfl, rfl⟩ (procs.nice _) (procs.member _)

/-- A thread leaves its process as it exits. -/
theorem exit (procs : Procs s) (t : Tid) :
    Procs ((s.modTd t fun td => { td with tdState := .inactive, exited := true }).modProc (s.td t).proc
      fun p => { p with threads := p.threads.filter (· ≠ t) }) := by
  have gone : ∀ u, u ≠ t →
      (s.modTd t fun td => { td with tdState := .inactive, exited := true }).td u = s.td u := fun _ other =>
    update_of_ne other ..
  have proc (p : Pid) : (s.modTd t fun td => { td with tdState := .inactive, exited := true }).proc p = s.proc p := rfl
  refine ⟨fun p => ?_, fun p u listed => ?_⟩
  · by_cases same : p = (s.td t).proc
    · subst same
      simpa [State.modProc, proc] using procs.nice (s.td t).proc
    · simpa [State.modProc, same, proc] using procs.nice p
  · have both : u ∈ (s.proc p).threads ∧ u ≠ t := by
      by_cases same : p = (s.td t).proc
      · subst same
        simpa [State.modProc, proc] using listed
      · have there : u ∈ (s.proc p).threads := by simpa [State.modProc, same, proc] using listed
        refine ⟨there, ?_⟩
        rintro rfl
        exact same (procs.member p u there).2.2.symm
    have member := procs.member p u both.1
    rw [← gone u both.2] at member
    exact member

/-- One step keeps the processes in order. -/
theorem micro (procs : Procs s) (inv : Inv C s L d) (step : Micro C s s') : Procs s' := by
  cases step with
  | flow step => exact procs.staffed (step.steady inv).staffed
  | recast t priClass cls run =>
    rw [run]
    exact procs.staffed (recast_staffed ..)
  | switchedFrom t priClass cls run =>
    rw [run]
    exact procs.staffed ((recast_staffed ..).trans (pssSwitchedFrom_steady ..).staffed)
  | switchedTo t priClass run =>
    rw [run]
    exact procs.staffed ((recast_staffed ..).trans (addVtime_steady ..).staffed)
  | weigh t run =>
    rw [run]
    exact procs.staffed (.modEnt ..)
  | nice p nice range run =>
    rw [run]
    exact procs.modProc p _ range (procs.member p)
  | move t onRq run =>
    rw [run]
    exact procs.staffed (pssSchedGroupMove_steady ..).staffed
  | fork parent newProc stale run =>
    rw [run]
    exact (procs.forkAlloc parent newProc).staffed (schedForkThread_staffed ..)
  | exit t run =>
    rw [run]
    exact procs.exit t
  | setShares g shares run =>
    rw [run]
    exact procs.staffed (Steady.modGrp ..).staffed
  | create parent shares run =>
    rw [run]
    refine procs.staffed ?_
    exact ⟨rfl, rfl, fun _ => rfl, fun _ => rfl⟩
  | sysctl write tun new run =>
    rw [run]
    refine procs.staffed ?_
    exact ⟨rfl, rfl, fun _ => rfl, fun _ => rfl⟩

/-- Every path keeps the processes in order. -/
theorem path (procs : Procs s) (h : Path C s s') : Procs s' := by
  induction h with
  | refl => exact procs
  | step inv micro _ ih => exact ih (procs.micro inv micro)

end Procs
end SfqSched
